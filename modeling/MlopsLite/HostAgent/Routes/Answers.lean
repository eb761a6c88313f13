import MlopsLite.HostAgent.Routes.Handlers

/-!
# Routes — which requests are answered

A request is answered if its handler returns, and a query or a body of the
wrong shape with a status of 4xx. The shape is what the handler's own
conversions take; a `limit` that is no number and a `cursor` of any text are
taken for none.
-/

namespace MlopsLite.HostAgent.Routes

open Conversions (Value Fault Fields)
open Jobs (Kind)

variable (env : Env) (agent : Agent)

/-! ## Shapes -/

/-- The body is an object, and its members are as said. -/
def BodyIs (req : PostRequest) (shape : Fields → Prop) : Prop :=
  ∃ ms, parseJson env req.raw = .ok (.obj ms) ∧ shape (Conversions.ofMembers ms)

/-- A given `limit` of digits is a number: decimal digits, and not too many. -/
def LimitReads (query : List Char) : Prop :=
  ∀ limit, first env query "limit" = some limit → limit ≠ [] →
    limit.all env.numerals.digit = true →
      limit.all env.numerals.decimal = true ∧ limit.length ≤ 4300

/-- A given bound on the times is a number. -/
def BoundReads (query : List Char) (name : String) : Prop :=
  ∀ text, first env query name = some text → (env.numerals.float text).isSome = true

def DrainReads (body : Fields) : Prop :=
  Conversions.takes (Conversions.float env.numerals (drainTimeout body)) = true

/-- An operation's id is a key, and its target a dict. -/
def OperationFits (body : Fields) : Prop :=
  (body.read "operation_id").truthy = true →
    Conversions.hashable (body.read "operation_id") = true ∧
      ((body.read "target").truthy = true → Conversions.isObject (body.read "target") = true)

def PositionReads (body : Fields) : Prop :=
  actionOf env body = "reorder" → Conversions.takes (positionOf env body) = true

/-- The request is of the shape that its route takes. -/
def Shaped : Request → Prop
  | .get path query =>
    match getRoute path with
    | .runtimeAdmission => LimitReads env query
    | .journal => BoundReads env query "since" ∧ BoundReads env query "until"
    | _ => True
  | .post req =>
    match postRoute req.path with
    | .override _ => BodyIs env req (PositionReads env)
    | .unload =>
      BodyIs env req fun body =>
        Conversions.isText (body.read "engine") = true ∧ DrainReads env body
    | .reload => BodyIs env req fun body => DrainReads env body ∧ OperationFits body
    | .jobs =>
      BodyIs env req fun body =>
        Conversions.isText (body.read "kind") = true ∧
          ∃ request, innerRequest body = .ok request ∧
            ∀ k, kindOf (body.read "kind") = some k → Typed k (foldModality body request)
    | .legacy k => BodyIs env req (Typed k)
    | .verb _ _ rest =>
      rest = [] ∧ starts "multipart/" req.contentType = true ∨
        ∃ v, v ≠ .null ∧ parseJson env req.raw = .ok v
    | .cancel _ | .unknown => True

/-- A response, with a status of 4xx unless the shape is right. -/
def Meets (shaped : Prop) (h : Handled) : Prop :=
  ∃ a, h = .ok a ∧ (¬ shaped → a.refuses = true)

def Answered (r : Request) : Prop := Meets (Shaped env r) (handle env agent r)

/-! ## When they are answered -/

/-- A known kind's request is turned down, or it is typed, or turned away first. -/
def Admissible (jobs : JobManager) (k : Kind) (request : Fields) : Prop :=
  (missing k.spec request).isSome = true ∨
    match modalityOf k.spec request with
    | .error _ => False
    | .ok (.unknown _) => True
    | .ok (.taken modality) =>
      Conversions.hashable (request.read "idempotency_key") = true ∧
        (Conversions.isText modality = true ∧
            Conversions.isText (jobIdOf k.spec request jobs.fresh) = true ∨
          TurnedAway jobs k request modality)

/-- The body is no JSON, or `null`. -/
def NoBody (req : PostRequest) : Prop := parseJson env req.raw = .ok .null

/-- The engine's lock takes the timeout, if the engine is there. -/
def UnloadFits (body : Fields) : Prop :=
  Conversions.hashable (body.read "engine") = true ∧
    ∀ e, engineOf agent (body.read "engine") = some e →
      ∃ t, Conversions.float env.numerals (drainTimeout body) = .ok t ∧
        (Number.fin env.maxWait).lt t = false

/-- The shape is right, or the timeout is a text that is no number. -/
def ReloadFits (body : Fields) : Prop :=
  Conversions.float env.numerals (drainTimeout body) = .error .value ∨
    DrainReads env body ∧ OperationFits body

def JobFits (body : Fields) : Prop :=
  Conversions.hashable (body.read "kind") = true ∧
    ∃ request, innerRequest body = .ok request ∧
      ∀ k, kindOf (body.read "kind") = some k →
        Admissible agent.manager k (foldModality body request)

/-- The position is a number, or the job is not there to be moved. -/
def OverrideFits (id : String) (body : Fields) : Prop :=
  PositionReads env body ∨
    agent.broker.connects = true ∧
      (agent.broker.state id = none ∨ agent.broker.state id = some "running")

/-- The engine's verb reads the body as JSON. -/
def ReadsBody (req : PostRequest) (eid : String) (rest : List (List Char)) : Prop :=
  (agent.engines eid).isSome = true ∧
    (rest = [] ∧ starts "multipart/" req.contentType = false ∨ rest = ["stream".toList])

/-- What a request must be for its answer. -/
def Answerable : Request → Prop
  | .get path query => Shaped env (.get path query)
  | .post req =>
    match postRoute req.path with
    | .override id => BodyIs env req (OverrideFits env agent id)
    | .unload => locked agent req = true ∨ NoBody env req ∨ BodyIs env req (UnloadFits env agent)
    | .reload => locked agent req = true ∨ NoBody env req ∨ BodyIs env req (ReloadFits env)
    | .jobs => NoBody env req ∨ BodyIs env req (JobFits agent)
    | .legacy k => NoBody env req ∨ BodyIs env req (Admissible agent.manager k)
    | .verb eid _ rest => ReadsBody agent req eid rest → ∃ v, parseJson env req.raw = .ok v
    | .cancel _ | .unknown => True

/-! ## Handlers, one by one -/

variable {env agent} {shaped : Prop} {run : Handled} {a : Answer} {e : Exc} {req : PostRequest}
  {query : List Char} {body request : Fields} {k : Kind} {jobs : JobManager} {modality : Value}

@[simp] theorem meets_ok : Meets shaped (.ok a) ↔ (¬ shaped → a.refuses = true) := by
  simp [Meets]

@[simp] theorem meets_error : ¬ Meets shaped (.error e) := by
  simp [Meets]

theorem meets_congr {other : Prop} (h : shaped ↔ other) : Meets shaped run ↔ Meets other run := by
  rw [Meets, Meets, h]

/-- A response to what is shaped right. -/
theorem meets_of_shaped (hshaped : shaped) : Meets shaped (.ok a) :=
  meets_ok.mpr fun h => absurd hshaped h

theorem refuses_complaint {status : ℕ} {text : String} :
    (complaint status text).refuses = true ↔ 400 ≤ status ∧ status < 500 := by
  simp [complaint, answer, Answer.refuses]

theorem refuses_answer {status : ℕ} {payload : Value} :
    (answer status payload).refuses = true ↔ 400 ≤ status ∧ status < 500 := by
  simp [answer, Answer.refuses]

/-- Only an object has members. -/
theorem meets_members {v : Value} {f : Fields → Handled} : Meets shaped (members v >>= f) ↔
    ∃ ms, v = .obj ms ∧ Meets shaped (f (Conversions.ofMembers ms)) := by
  cases v <;> simp [members, bind, Except.bind]

theorem meets_lifted {α : Type} {x : Except Fault α} {f : α → Handled} :
    Meets shaped (lifted x >>= f) ↔ ∃ y, x = .ok y ∧ Meets shaped (f y) := by
  cases x <;> simp [lifted, bind, Except.bind]

/-- A handler of the body: no body is refused. -/
theorem meets_withBody {handle : Value → Handled} : Meets shaped (withBody env req handle) ↔
    NoBody env req ∨ ∃ v, v ≠ .null ∧ parseJson env req.raw = .ok v ∧ Meets shaped (handle v) := by
  unfold withBody NoBody
  cases hparse : parseJson env req.raw with
  | error e => simp [bind, Except.bind]
  | ok v =>
    cases v <;> simp [bind, Except.bind, invalidJson, refuses_complaint, pure, Except.pure]

/-- What a handler of an object makes of the body. -/
theorem meets_body {P Q : Fields → Prop} {handle : Value → Handled}
    (hother : ∀ v, (∀ ms, v ≠ .obj ms) → ¬ Meets False (handle v))
    (hobj : ∀ ms, parseJson env req.raw = .ok (.obj ms) →
      (Meets (Q (Conversions.ofMembers ms)) (handle (.obj ms)) ↔ P (Conversions.ofMembers ms))) :
    Meets (BodyIs env req Q) (withBody env req handle) ↔ NoBody env req ∨ BodyIs env req P := by
  rw [meets_withBody]
  refine or_congr_right ⟨?_, ?_⟩
  · rintro ⟨v, -, hparse, hmeets⟩
    by_cases hv : ∃ ms, v = .obj ms
    · obtain ⟨ms, rfl⟩ := hv
      have hshape : BodyIs env req Q ↔ Q (Conversions.ofMembers ms) := by
        simp [BodyIs, hparse]
      rw [hshape] at hmeets
      exact ⟨ms, hparse, (hobj ms hparse).mp hmeets⟩
    · have hshape : BodyIs env req Q ↔ False := by
        rw [iff_false]
        rintro ⟨ms, hobject, -⟩
        exact hv ⟨ms, Except.ok.inj (hparse.symm.trans hobject)⟩
      rw [hshape] at hmeets
      exact absurd hmeets (hother v fun ms h => hv ⟨ms, h⟩)
  · rintro ⟨ms, hparse, hP⟩
    have hshape : BodyIs env req Q ↔ Q (Conversions.ofMembers ms) := by
      simp [BodyIs, hparse]
    refine ⟨.obj ms, by simp, hparse, ?_⟩
    rw [hshape]
    exact (hobj ms hparse).mpr hP

theorem meets_withMembers {P Q : Fields → Prop} {handle : Fields → Handled}
    (hbody : ∀ body, Meets (Q body) (handle body) ↔ P body) :
    Meets (BodyIs env req Q) (withMembers env req handle) ↔ NoBody env req ∨ BodyIs env req P := by
  refine meets_body (fun v hv hmeets => ?_) fun ms hparse => ?_
  · obtain ⟨ms, rfl, -⟩ := meets_members.mp hmeets
    exact hv ms rfl
  · exact hbody _

/-! ### GET -/

theorem admissionLimit_iff : (∃ l, admissionLimit env (first env query "limit") = .ok l) ↔
    LimitReads env query := by
  unfold LimitReads
  cases hfirst : first env query "limit" with
  | none => simp [admissionLimit]
  | some limit =>
    rw [admissionLimit]
    split
    · rename_i hdigits
      have hsome := env.numerals.int_isSome limit hdigits.1 hdigits.2
      cases hint : env.numerals.int limit with
      | none =>
        rw [hint] at hsome
        simp only [reduceCtorEq, exists_false, false_iff]
        intro h
        exact absurd (hsome.mpr (h limit rfl hdigits.1 hdigits.2)) (by simp)
      | some n =>
        rw [hint] at hsome
        simp only [Except.ok.injEq, exists_eq', true_iff]
        rintro _ ⟨⟩ - -
        exact hsome.mp rfl
    · rename_i hdigits
      simp only [Except.ok.injEq, exists_eq', true_iff]
      rintro _ ⟨⟩ hne hall
      exact absurd ⟨hne, hall⟩ hdigits

theorem getRuntimeAdmission_meets :
    Meets (LimitReads env query) (getRuntimeAdmission env agent query) ↔ LimitReads env query := by
  constructor
  · rintro ⟨a, hrun, hrefuses⟩
    by_contra hnot
    have hrefused := hrefuses hnot
    unfold getRuntimeAdmission at hrun
    split at hrun
    · obtain rfl := Except.ok.inj hrun
      simp [refuses_complaint] at hrefused
    · cases hlimit : admissionLimit env (first env query "limit") with
      | error e =>
        rw [hlimit] at hrun
        cases hrun
      | ok l => exact hnot (admissionLimit_iff.mp ⟨l, hlimit⟩)
  · intro h
    unfold getRuntimeAdmission
    split
    · exact meets_of_shaped h
    · obtain ⟨l, hl⟩ := admissionLimit_iff.mpr h
      rw [hl]
      exact meets_of_shaped h

theorem bound_of_reads {name : String} (h : BoundReads env query name)
    (entries : List JournalRead.Entry) : ∃ x, bound env (first env query name) entries = .ok x := by
  unfold BoundReads at h
  cases hfirst : first env query name with
  | none => exact ⟨none, rfl⟩
  | some text =>
    cases entries with
    | nil => exact ⟨none, rfl⟩
    | cons e entries =>
      obtain ⟨x, hx⟩ := Option.isSome_iff_exists.mp (h text hfirst)
      exact ⟨some x, by simp [bound, hx]⟩

theorem getJournal_meets :
    Meets (BoundReads env query "since" ∧ BoundReads env query "until")
        (getJournal env agent query) ↔
      BoundReads env query "since" ∧ BoundReads env query "until" := by
  constructor
  · rintro ⟨a, hrun, hrefuses⟩
    by_contra hnot
    have hrefused := hrefuses hnot
    unfold getJournal at hrun
    cases hread : readJournal env agent.records query with
    | error e =>
      rw [hread] at hrun
      cases hrun
    | ok page =>
      -- A page is 200, whatever the query.
      rw [hread] at hrun
      obtain rfl := Except.ok.inj hrun
      simp [Answer.refuses] at hrefused
  · rintro ⟨hsince, htill⟩
    obtain ⟨since, hs⟩ := bound_of_reads hsince
      (JournalRead.matching agent.records (asked env query none none))
    obtain ⟨till, ht⟩ := bound_of_reads htill
      (JournalRead.matching agent.records (asked env query since none))
    simp only [getJournal, readJournal, hs, ht, bind, Except.bind]
    exact meets_of_shaped ⟨hsince, htill⟩

/-! ### Submitting -/

theorem missing_none_iff : missing k.spec request = none ↔
    ∀ f ∈ k.spec.required, given request f = true := by
  simp [missing]

/-- A given field of a shadow request is there, and truthy. -/
theorem read_of_given {f : String} (h : given request f = true) :
    ∃ v, request.get f = some v ∧ v.truthy = true ∧ request.read f = v := by
  unfold given at h
  cases hget : request.get f with
  | none => simp [hget] at h
  | some v =>
    rw [hget] at h
    exact ⟨v, rfl, h, by simp [Fields.read, hget]⟩

/-- A modality out of a set is a text, and so is the agent's own id. -/
theorem typed_of_set {expected : List String} (hset : k.spec.modalitySet = some expected)
    (hid : k.spec.idField = none) (hmod : modalityOf k.spec request = .ok (.taken modality))
    (hkey : Conversions.hashable (request.read "idempotency_key") = true) (fresh : String) :
    Typed k request ∧ Conversions.isText modality = true ∧
      Conversions.isText (jobIdOf k.spec request fresh) = true := by
  unfold modalityOf at hmod
  rw [hset] at hmod
  dsimp only at hmod
  split at hmod
  · rename_i m horelse
    refine ⟨⟨?_, hkey, ?_⟩, ?_, ?_⟩
    · intro v hget htruthy
      simp only [hget, Json.orElse, htruthy, if_true] at horelse
      rw [horelse]
      rfl
    · intro f hf
      rw [hid] at hf
      cases hf
    · split at hmod
      · cases hmod
        rfl
      · cases hmod
    · simp [jobIdOf, hid, Conversions.isText]
  · cases hmod

/-- What is left of the types once the checks are past. -/
theorem typed_iff_of_taken (hmissing : missing k.spec request = none)
    (hmod : modalityOf k.spec request = .ok (.taken modality))
    (hkey : Conversions.hashable (request.read "idempotency_key") = true) (fresh : String) :
    Typed k request ↔ Conversions.isText modality = true ∧
      Conversions.isText (jobIdOf k.spec request fresh) = true := by
  cases k with
  | finetune | hpo | batch =>
    obtain ⟨htyped, htexts⟩ := typed_of_set rfl rfl hmod hkey fresh
    exact iff_of_true htyped htexts
  | shadow =>
    have hgiven := missing_none_iff.mp hmissing
    obtain ⟨m, hm, hmtruthy, hmread⟩ := read_of_given (hgiven "modality" (by decide))
    obtain ⟨id, hid, hidtruthy, hidread⟩ := read_of_given (hgiven "shadow_id" (by decide))
    have hmodality : modality = m := by
      cases hmod
      exact hmread
    have hjob : jobIdOf Kind.shadow.spec request fresh = id := hidread
    rw [hmodality, hjob]
    constructor
    · rintro ⟨htext, -, hidtext⟩
      exact ⟨htext m hm hmtruthy, hidtext "shadow_id" rfl id hid hidtruthy⟩
    · rintro ⟨htext, hidtext⟩
      refine ⟨?_, hkey, ?_⟩
      · intro v hv _
        obtain rfl := Option.some.inj (hm.symm.trans hv)
        exact htext
      · rintro f ⟨⟩ v hv _
        obtain rfl := Option.some.inj (hid.symm.trans hv)
        exact hidtext

/-- The record's columns take texts; the store may still fail, which is told. -/
theorem launch_meets (hshaped : shaped ↔ Conversions.isText modality = true ∧
    Conversions.isText (jobIdOf k.spec request jobs.fresh) = true) :
    Meets shaped (submitted env (launch jobs k request modality)) ↔ shaped := by
  constructor
  · rintro ⟨a, hrun, hrefuses⟩
    by_contra hnot
    have hrefused := hrefuses hnot
    rw [launch, if_neg ?_] at hrun
    · obtain rfl := Except.ok.inj hrun
      simp [refuses_complaint] at hrefused
    · intro htexts
      rw [Bool.and_eq_true, Bool.and_eq_true] at htexts
      exact hnot (hshaped.mpr ⟨htexts.1.2, htexts.1.1⟩)
  · intro h
    unfold launch
    dsimp only
    split
    · exact meets_of_shaped h
    · exact meets_of_shaped h

/-- Past the checks, a wrong type is answered with 4xx only where it is not looked at. -/
theorem enter_meets
    (hshaped : Conversions.hashable (request.read "idempotency_key") = true →
      (shaped ↔ Conversions.isText modality = true ∧
        Conversions.isText (jobIdOf k.spec request jobs.fresh) = true)) :
    Meets shaped (submitted env (enter env jobs k request modality)) ↔
      Conversions.hashable (request.read "idempotency_key") = true ∧
        (Conversions.isText modality = true ∧
            Conversions.isText (jobIdOf k.spec request jobs.fresh) = true ∨
          TurnedAway jobs k request modality) := by
  unfold enter TurnedAway
  dsimp only
  by_cases hkey : Conversions.hashable (request.read "idempotency_key") = true
  swap
  · simp [hkey, submitted]
  rw [if_pos hkey, ← hshaped hkey]
  cases hdup : duplicate jobs (request.read "idempotency_key") with
  | some hit => simp [submitted, refuses_answer, hkey]
  | none =>
    cases hactive : jobs.active with
    | some id =>
      have hrefuses : Meets shaped (submitted env (refused 409 ("agent busy with job " ++ id))) := by
        simp [submitted, refused, refuses_answer]
      simp [hrefuses, hkey]
    | none =>
      by_cases hneeds : needsGpu k.spec modality = true
      · cases hacquired : jobs.acquired with
        | granted => simp [hneeds, hkey, launch_meets (hshaped hkey)]
        | held holder kind => simp [hneeds, hkey, submitted, refuses_answer]
        | vramExceeded => simp [hneeds, hkey, submitted, refused, refuses_answer]
      · simp [hneeds, hkey, launch_meets (hshaped hkey)]

/-- A modality that is not a text has no `lower`. -/
theorem modalityOf_error (h : modalityOf k.spec request = .error e) : e = .fault .attribute := by
  unfold modalityOf at h
  split at h
  · cases h
  · split at h
    · cases h
    · cases h
      rfl

theorem submitKind_meets : Meets (Typed k request) (submitted env (submitKind env jobs k request)) ↔
    Admissible jobs k request := by
  unfold submitKind Admissible
  cases hmissing : missing k.spec request with
  | some f => simp [submitted, refused, refuses_answer]
  | none =>
    cases hmod : modalityOf k.spec request with
    | error e =>
      obtain rfl := modalityOf_error hmod
      simp [submitted]
    | ok m =>
      cases m with
      | unknown m => simp [submitted, refused, refuses_answer]
      | taken modality =>
        simp only [Option.isSome_none, Bool.false_eq_true, false_or]
        exact enter_meets fun hkey => typed_iff_of_taken hmissing hmod hkey jobs.fresh

theorem isText_hashable {v : Value} (h : Conversions.isText v = true) :
    Conversions.hashable v = true := by
  cases v <;> first | rfl | cases h

theorem kindOf_none {v : Value} (h : ¬ Conversions.isText v = true) : kindOf v = none := by
  cases v <;> first | rfl | exact absurd rfl h

/-- A kind without a hash raises, an unknown one is refused. -/
theorem submit_meets {kind : Value}
    (hshaped : shaped ↔ Conversions.isText kind = true ∧ ∀ k, kindOf kind = some k → Typed k request) :
    Meets shaped (submitted env (submit env jobs kind request)) ↔
      Conversions.hashable kind = true ∧ ∀ k, kindOf kind = some k → Admissible jobs k request := by
  unfold submit
  by_cases hhash : Conversions.hashable kind = true
  swap
  · simp [hhash, submitted]
  rw [if_pos hhash]
  cases hkind : kindOf kind with
  | none => simp [submitted, refused, refuses_answer, hhash]
  | some k =>
    have htext : Conversions.isText kind = true := by
      by_contra hnot
      rw [kindOf_none hnot] at hkind
      cases hkind
    have htyped : shaped ↔ Typed k request := by
      rw [hshaped, hkind]
      simp [htext]
    rw [meets_congr htyped, submitKind_meets]
    simp [hhash]

theorem kindOf_name (k : Kind) : kindOf (.str k.spec.name) = some k := by
  cases k <;> rfl

/-! ### POST -/

theorem unloadBody_meets : Meets (Conversions.isText (body.read "engine") = true ∧ DrainReads env body)
    (unloadBody env agent body) ↔ UnloadFits env agent body := by
  unfold unloadBody UnloadFits
  dsimp only
  by_cases hhash : Conversions.hashable (body.read "engine") = true
  swap
  · simp [hhash]
  rw [if_pos hhash]
  cases hengine : engineOf agent (body.read "engine") with
  | none => simp [unknownEngine, refuses_complaint, hhash]
  | some e =>
    dsimp only
    rw [meets_lifted]
    have htext : Conversions.isText (body.read "engine") = true := by
      cases hread : body.read "engine" <;> simp [hread, engineOf] at hengine
      rfl
    constructor
    · rintro ⟨t, ht, a, hrun, -⟩
      refine ⟨hhash, fun e' he => ⟨t, ht, ?_⟩⟩
      by_contra hwait
      rw [Bool.not_eq_false] at hwait
      simp [Engine.unload, hwait, bind, Except.bind] at hrun
    · rintro ⟨-, hfits⟩
      obtain ⟨t, ht, hwait⟩ := hfits e rfl
      refine ⟨t, ht, ?_⟩
      simp only [Engine.unload, hwait, bind, Except.bind, Bool.false_eq_true, if_false]
      exact meets_of_shaped ⟨htext, Conversions.takes_iff.mpr ⟨t, ht⟩⟩

theorem postControlUnload_meets (hlocked : locked agent req = false) :
    Meets (BodyIs env req fun body =>
        Conversions.isText (body.read "engine") = true ∧ DrainReads env body)
      (postControlUnload env agent req) ↔
    NoBody env req ∨ BodyIs env req (UnloadFits env agent) := by
  rw [postControlUnload, if_neg (by simp [hlocked])]
  exact meets_withMembers fun body => unloadBody_meets

theorem jobsBody_meets : Meets (Conversions.isText (body.read "kind") = true ∧
      ∃ request, innerRequest body = .ok request ∧
        ∀ k, kindOf (body.read "kind") = some k → Typed k (foldModality body request))
    (jobsBody env agent body) ↔ JobFits agent body := by
  unfold jobsBody JobFits
  cases hinner : innerRequest body with
  | error e => simp [bind, Except.bind]
  | ok request =>
    have hshaped : (Conversions.isText (body.read "kind") = true ∧
        ∃ request', Except.ok request = (.ok request' : Except Exc Fields) ∧
          ∀ k, kindOf (body.read "kind") = some k → Typed k (foldModality body request')) ↔
        Conversions.isText (body.read "kind") = true ∧
          ∀ k, kindOf (body.read "kind") = some k → Typed k (foldModality body request) := by
      simp
    simp only [bind, Except.bind]
    rw [submit_meets hshaped]
    simp

theorem legacyBody_meets : Meets (Typed k body)
    (submitted env (submit env agent.manager (.str k.spec.name) body)) ↔
      Admissible agent.manager k body := by
  have hshaped : Typed k body ↔ Conversions.isText (.str k.spec.name) = true ∧
      ∀ k', kindOf (.str k.spec.name) = some k' → Typed k' body := by
    simp [kindOf_name, Conversions.isText]
  rw [submit_meets hshaped, kindOf_name]
  simp [Conversions.hashable]

/-- Of the faults of the language only a `ValueError` is told as 4xx. -/
theorem refuses_reloaded_fault {f : Fault} :
    (reloaded env (.error (.fault f))).refuses = true ↔ f = .value := by
  cases f <;> simp [reloaded, errorResponse, engineErrorStatus, refuses_complaint]

theorem isObject_iff {v : Value} : Conversions.isObject v = true ↔ ∃ ms, v = .obj ms := by
  cases v <;> simp [Conversions.isObject]

theorem members_of_not_object {v : Value} (h : ¬ Conversions.isObject v = true) :
    members v = .error (.fault .attribute) := by
  cases v <;> first | rfl | exact absurd rfl h

/-- An operation that does not fit is a fault that is no `ValueError`. -/
theorem reloadOp_of_not_fits (agent : Agent) {t : Number} {preempt : Bool}
    (h : ¬ OperationFits body) :
    ∃ f, f ≠ .value ∧ reloadOp agent (body.read "operation_id") (body.read "target") preempt t =
      .error (.fault f) := by
  unfold OperationFits at h
  push Not at h
  obtain ⟨hid, hbad⟩ := h
  rw [reloadOp, if_pos hid]
  by_cases hobject : (body.read "target").truthy = true ∧
      ¬ Conversions.isObject (body.read "target") = true
  · refine ⟨.attribute, by simp, ?_⟩
    dsimp only
    rw [if_pos hobject.1, members_of_not_object hobject.2]
    rfl
  · have hhash : ¬ Conversions.hashable (body.read "operation_id") = true := fun hhash =>
      hobject (hbad hhash)
    have htarget : ∃ ms, (if (body.read "target").truthy = true then body.read "target"
        else .obj []) = .obj ms := by
      split
      · rename_i htruthy
        exact isObject_iff.mp (not_not.mp fun hnot => hobject ⟨htruthy, hnot⟩)
      · exact ⟨[], rfl⟩
    obtain ⟨ms, hms⟩ := htarget
    refine ⟨.type, by simp, ?_⟩
    dsimp only
    rw [hms]
    simp [members, bind, Except.bind, hhash]

/-- What the `try` of the route raises is told as 400 for a text that is no number, and
otherwise not as 4xx where the shape is at fault. -/
theorem reloadFrom_meets : Meets (DrainReads env body ∧ OperationFits body)
    (.ok (reloaded env (reloadFrom env agent body))) ↔ ReloadFits env body := by
  unfold ReloadFits
  rw [meets_ok, reloadFrom]
  cases hfloat : Conversions.float env.numerals (drainTimeout body) with
  | error f =>
    have hdrain : ¬ DrainReads env body := by simp [DrainReads, hfloat, Conversions.takes]
    simp [hdrain, lifted, bind, Except.bind, refuses_reloaded_fault]
  | ok t =>
    have hdrain : DrainReads env body := by simp [DrainReads, hfloat, Conversions.takes]
    by_cases hfits : OperationFits body
    · simp [hdrain, hfits]
    · obtain ⟨f, hf, hrun⟩ := reloadOp_of_not_fits agent hfits
      simp only [hdrain, hfits, lifted, bind, Except.bind]
      rw [hrun]
      simp [refuses_reloaded_fault, hf]

theorem postControlReload_meets (hlocked : locked agent req = false) :
    Meets (BodyIs env req fun body => DrainReads env body ∧ OperationFits body)
      (postControlReload env agent req) ↔
    NoBody env req ∨ BodyIs env req (ReloadFits env) := by
  rw [postControlReload, if_neg (by simp [hlocked])]
  refine meets_body (fun v hv hmeets => ?_) fun ms hparse => reloadFrom_meets
  have hnot : ¬ Conversions.isObject v = true := fun h =>
    (isObject_iff.mp h).elim fun ms hms => hv ms hms
  rw [meets_ok, members_of_not_object hnot] at hmeets
  simp [bind, Except.bind, refuses_reloaded_fault] at hmeets

/-! ### Engines and the broker's jobs -/

/-- What an adapter raises is told. -/
theorem verbBody_ok (e : Engine) (eid verb : String) (stream preempt : Bool) (v : Value) :
    ∃ a, verbBody env e eid verb stream preempt v = .ok a := by
  unfold verbBody
  split
  · split
    · exact ⟨_, rfl⟩
    · exact ⟨_, rfl⟩
  · exact ⟨_, rfl⟩

/-- A verb that reads its body as JSON hands it to the adapter. -/
theorem postEngineVerb_reads (verb : String) {eid : String} {rest : List (List Char)} {e : Engine}
    (hengine : agent.engines eid = some e)
    (hrest : rest = [] ∧ starts "multipart/" req.contentType = false ∨ rest = ["stream".toList]) :
    ∃ stream preempt, postEngineVerb env agent req eid verb rest =
      withBody env req (verbBody env e eid verb stream preempt) := by
  refine ⟨decide (rest = ["stream".toList]), preempts env req.query, ?_⟩
  unfold postEngineVerb
  rw [hengine]
  dsimp only
  rcases hrest with ⟨rfl, hplain⟩ | rfl
  · rw [if_pos (Or.inl rfl), if_neg (by simp [hplain])]
  · rw [if_pos (Or.inr (decide_eq_true rfl)), if_neg (by simp)]

/-- Otherwise it is answered, and relayed only what is multipart. -/
theorem postEngineVerb_other (verb : String) {eid : String} {rest : List (List Char)}
    (h : ¬ ReadsBody agent req eid rest) :
    ∃ a, postEngineVerb env agent req eid verb rest = .ok a ∧
      (¬ (rest = [] ∧ starts "multipart/" req.contentType = true) → a.refuses = true) := by
  unfold postEngineVerb
  cases hengine : agent.engines eid with
  | none => exact ⟨_, rfl, fun _ => refuses_complaint.mpr (by omega)⟩
  | some e =>
    have hrest : ¬ (rest = [] ∧ starts "multipart/" req.contentType = false ∨
        rest = ["stream".toList]) := fun hrest => h ⟨by simp [hengine], hrest⟩
    push Not at hrest
    dsimp only
    by_cases hnil : rest = []
    · have hmultipart : starts "multipart/" req.contentType = true := by
        simpa using hrest.1 hnil
      subst hnil
      rw [if_pos (Or.inl rfl), if_pos (by simp [hmultipart])]
      exact ⟨_, rfl, fun hnot => absurd ⟨rfl, hmultipart⟩ hnot⟩
    · rw [if_neg fun hread => hread.elim hnil fun hstream => hrest.2 (of_decide_eq_true hstream)]
      exact ⟨_, rfl, fun _ => refuses_complaint.mpr (by omega)⟩

theorem postEngineVerb_meets {eid verb : String} {rest : List (List Char)} :
    Meets (rest = [] ∧ starts "multipart/" req.contentType = true ∨
        ∃ v, v ≠ .null ∧ parseJson env req.raw = .ok v)
      (postEngineVerb env agent req eid verb rest) ↔
    (ReadsBody agent req eid rest → ∃ v, parseJson env req.raw = .ok v) := by
  by_cases hreads : ReadsBody agent req eid rest
  · obtain ⟨e, hengine⟩ := Option.isSome_iff_exists.mp hreads.1
    obtain ⟨stream, preempt, hrun⟩ := postEngineVerb_reads verb hengine hreads.2
    rw [hrun, meets_withBody]
    constructor
    · rintro (hnull | ⟨v, -, hparse, -⟩) _
      · exact ⟨_, hnull⟩
      · exact ⟨v, hparse⟩
    · intro h
      obtain ⟨v, hparse⟩ := h hreads
      by_cases hnull : v = .null
      · subst hnull
        exact Or.inl hparse
      · obtain ⟨a, ha⟩ := verbBody_ok e eid verb stream preempt v
        refine Or.inr ⟨v, hnull, hparse, ?_⟩
        rw [ha]
        exact meets_of_shaped (Or.inr ⟨v, hnull, hparse⟩)
  · obtain ⟨a, hrun, hrefuses⟩ := postEngineVerb_other verb hreads
    refine iff_of_true ⟨a, hrun, fun hnot => hrefuses fun h => hnot (Or.inl h)⟩ fun h =>
      absurd h hreads

theorem change_of_not_reorder {b : Broker} {id action : String} (h : action ≠ "reorder") :
    ∃ made, change env b id action body = .ok made := by
  unfold change
  rw [if_neg h]
  repeat' split
  all_goals exact ⟨_, rfl⟩

/-- The position of a reorder is read when the job is there to be moved. -/
theorem change_reorder {b : Broker} {id : String} : change env b id "reorder" body =
    lifted (positionOf env body) >>= fun position => .ok (some (b.reorder id position)) := by
  unfold change
  rw [if_neg (by decide), if_pos rfl]
  rfl

theorem jobOverride_meets (env : Env) (body : Fields) (b : Broker) (id : String) :
    Meets (PositionReads env body) (jobOverride env b id (actionOf env body) body) ↔
      PositionReads env body ∨ b.state id = none ∨ b.state id = some "running" := by
  unfold jobOverride
  cases hstate : b.state id with
  | none => simp [refuses_complaint]
  | some state =>
    by_cases hrunning : state = "running"
    · simp [hrunning, refuses_complaint]
    · have hmoved : PositionReads env body ↔
          ∃ made, change env b id (actionOf env body) body = .ok made := by
        by_cases hreorder : actionOf env body = "reorder"
        · rw [PositionReads, hreorder, change_reorder]
          cases hposition : positionOf env body <;>
            simp [Conversions.takes, lifted, bind, Except.bind]
        · exact iff_of_true (fun h => absurd h hreorder) (change_of_not_reorder hreorder)
      simp only [reduceCtorEq, Option.some.injEq, hrunning, if_false, or_false]
      cases hchange : change env b id (actionOf env body) body with
      | error e =>
        rw [hchange] at hmoved
        simp [bind, Except.bind, hmoved]
      | ok made =>
        have hreads : PositionReads env body := hmoved.mpr ⟨made, hchange⟩
        exact iff_of_true (meets_of_shaped hreads) hreads

theorem postGpuJobOverride_meets {id : String} :
    Meets (BodyIs env req (PositionReads env)) (postGpuJobOverride env agent req id) ↔
      BodyIs env req (OverrideFits env agent id) := by
  unfold postGpuJobOverride BodyIs OverrideFits
  cases hparse : parseJson env req.raw with
  | error e => simp [bind, Except.bind]
  | ok v =>
    by_cases hobject : Conversions.isObject v = true
    · obtain ⟨ms, rfl⟩ := isObject_iff.mp hobject
      by_cases hconnects : agent.broker.connects = true
      · have hmeets := jobOverride_meets env (Conversions.ofMembers ms) agent.broker id
        simpa [bind, Except.bind, hconnects, members] using hmeets
      · simp [bind, Except.bind, hconnects, pure, Except.pure, refuses_complaint]
    · have hnot : ∀ ms, v ≠ .obj ms := fun ms h => hobject (isObject_iff.mpr ⟨ms, h⟩)
      have hmembers := members_of_not_object hobject
      by_cases hconnects : agent.broker.connects = true
      · simp [bind, Except.bind, hconnects, hmembers, hnot]
      · simp [bind, Except.bind, hconnects, hnot, pure, Except.pure, refuses_complaint]

/-! ## Every request -/

/-- A library that knows the two empty containers. -/
def plain : Env where
  numerals := Conversions.ascii
  loads raw :=
    if raw = [91, 93] then .value (.arr [])
    else if raw = [123, 125] then .value (.obj [])
    else .invalid
  unquote := id
  shown
    | .str s => "'" ++ s ++ "'"
    | _ => "None"
  told _ := "error"
  maxWait := 9223372036

/-- An agent with nothing on it. -/
def bare : Agent where
  secret := ""
  ready := (true, none)
  interruptedAtStart := .num (.fin 0)
  startedAt := .num (.fin 0)
  securityMode := none
  freeGb := .null
  holder := none
  states := []
  jobsActive := 0
  engines _ := none
  engineRows := .obj []
  metrics := ""
  devices := .obj []
  queue := none
  admission := none
  records := []
  job _ := none
  listing _ := .arr []
  manager := ⟨fun _ => none, none, .granted, "0", true, fun _ => .empty, []⟩
  reload _ _ _ := .error .preemptRefused
  broker := ⟨true, fun _ => none, 0, fun _ => false, fun _ _ => false, fun _ => false,
    fun _ => .null, .arr []⟩

end MlopsLite.HostAgent.Routes
