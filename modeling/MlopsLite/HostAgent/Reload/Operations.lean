import MlopsLite.HostAgent.Reload.Runs

/-!
# Reload — operations

Requests to reload run as threads over one table of operations. Every other
call answers anything. In the history of claims, stored results and answers
an operation has one target, is never reloaded again after a result of it is
stored, and is answered with that result or with one whose identity is the
target's.
-/

namespace MlopsLite.HostAgent.Reload

variable {β : Type}

/-! ## Threads -/

/-- An entry of the table. -/
structure Rec where
  target : Want
  result : Option Result

/-- History: what requests have done to the table, and been answered. -/
inductive Done
  | claimed (operation : OperationId) (want : Want) (reply : Claimed)
  | stored (operation : OperationId) (r : Result)
  | answered (q : Request) (out : Except Err Result)

structure Shared where
  ops : Dict OperationId Rec
  history : List Done

namespace Shared

def answerClaim (x : Shared) (operation : OperationId) (want : Want) : Claimed :=
  match x.ops.get? operation with
  | none => .go
  | some rec =>
      if rec.target ≠ want then .mismatch
      else
        match rec.result with
        | some r => .stored r
        | none => .go

/-- The entry is written anew where the reload is to go on. -/
def claim (x : Shared) (operation : OperationId) (want : Want) : Shared where
  ops := if x.answerClaim operation want = .go then x.ops.insert operation ⟨want, none⟩ else x.ops
  history := x.history ++ [.claimed operation want (x.answerClaim operation want)]

def store (x : Shared) (operation : OperationId) (r : Result) : Shared where
  ops := x.ops.modify operation fun rec => { rec with result := some r }
  history := x.history ++ [.stored operation r]

def answer (x : Shared) (q : Request) (out : Except Err Result) : Shared :=
  { x with history := x.history ++ [.answered q out] }

end Shared

/-- What a step leaves open: the request that begins, the reply to a call. -/
structure Choice (β : Type) where
  request : Request
  given : Bool
  reply : (o : Op β) → Reply β o

def exec (c : Choice β) (x : Shared) : (o : Op β) → Option (Shared × Reply β o)
  | .claim operation want => some (x.claim operation want, x.answerClaim operation want)
  | .store operation r => some (x.store operation r, ())
  | o => some (x, c.reply o)

/-- A request, to its answer. -/
def serve (given : Bool) (q : Request) : Prog β (Request × Except Err Result) := do
  let out ← (reloadServingLlmOp given q).result
  return (q, out)

def machine (β : Type) :
    Code.Machine ℕ Shared (Choice β) (Op β) (Reply β) Err (Request × Except Err Result) where
  exec := exec
  spawn _ c _ := some (serve c.given c.request)
  env _ _ _ := none
  finish
    | _, x, .ok (q, out) => x.answer q out
    | _, x, .error _ => x
  epoch _ := 0

abbrev Sys (β : Type) :=
  Interleaving.State ℕ Shared (Code.Pc (Op β) (Reply β) Err (Request × Except Err Result))

def init : Sys β := ⟨⟨.empty, []⟩, fun _ => none⟩

/-- Any requests, in any order, their calls interleaved. -/
def Reachable (s : Sys β) : Prop := Runs.Reachable (machine β).next Runs.anyStep init s

/-! ## Rules -/

/-- What a request with an operation may be answered with. -/
def Answered (p : List Done) (q : Request) (out : Except Err Result) : Prop :=
  ∀ operation, q.key = some operation →
    (out = .error .targetMismatch ∧ .claimed operation q.want .mismatch ∈ p) ∨
    (∃ r, out = .ok { r with replayed := true } ∧ .claimed operation q.want (.stored r) ∈ p) ∨
    (.claimed operation q.want .go ∈ p ∧ out ≠ .error .targetMismatch ∧
      ∀ r, out = .ok r → r.status = .verifyFailed ∨ .stored operation r ∈ p)

/-- What may be done to the table after what has been done. -/
def Rule (p : List Done) : Done → Prop
  | .claimed operation want .go =>
      (∀ r, .stored operation r ∉ p) ∧ ∀ w, .claimed operation w .go ∈ p → w = want
  | .claimed operation want .mismatch => ∃ w, w ≠ want ∧ .claimed operation w .go ∈ p
  | .claimed operation want (.stored r) =>
      .stored operation r ∈ p ∧ .claimed operation want .go ∈ p
  | .stored operation r => r.replayed = false ∧ r.status ≠ .verifyFailed ∧
      ∃ w, .claimed operation w .go ∈ p ∧ verified w r = true
  | .answered q out => Answered p q out

/-- The table says what the history says. -/
structure Inv (x : Shared) : Prop where
  rule : Code.Guarded Rule [] x.history
  entry : ∀ operation rec, x.ops.get? operation = some rec →
    .claimed operation rec.target .go ∈ x.history
  claimed : ∀ operation w, .claimed operation w .go ∈ x.history →
    ∃ rec, x.ops.get? operation = some rec ∧ rec.target = w
  result : ∀ operation rec r, x.ops.get? operation = some rec → rec.result = some r →
    .stored operation r ∈ x.history
  stored : ∀ operation r, .stored operation r ∈ x.history →
    ∃ rec, x.ops.get? operation = some rec ∧ rec.result.isSome = true

theorem inv_init : Inv ⟨.empty, []⟩ where
  rule := trivial
  entry _ _ h := by simp at h
  claimed _ _ h := by simp at h
  result _ _ _ h := by simp at h
  stored _ _ h := by simp at h

variable {x : Shared} {operation : OperationId} {want : Want}

/-- The three answers of the table. -/
theorem answerClaim_cases (x : Shared) (operation : OperationId) (want : Want) :
    (x.answerClaim operation want = .mismatch ∧
      ∃ rec, x.ops.get? operation = some rec ∧ rec.target ≠ want) ∨
    (∃ rec r, x.answerClaim operation want = .stored r ∧ x.ops.get? operation = some rec ∧
      rec.target = want ∧ rec.result = some r) ∨
    (x.answerClaim operation want = .go ∧
      ∀ rec, x.ops.get? operation = some rec → rec.target = want ∧ rec.result = none) := by
  unfold Shared.answerClaim
  cases hget : x.ops.get? operation with
  | none => exact .inr (.inr ⟨rfl, fun rec h => (nomatch h)⟩)
  | some rec =>
    by_cases htarget : rec.target = want
    · cases hresult : rec.result with
      | some r => exact .inr (.inl ⟨rec, r, by simp [htarget, hresult], rfl, htarget, hresult⟩)
      | none =>
        refine .inr (.inr ⟨by simp [htarget, hresult], fun rec' h => ?_⟩)
        obtain rfl := Option.some.inj h
        exact ⟨htarget, hresult⟩
    · exact .inl ⟨by simp [htarget], rec, rfl, htarget⟩

theorem rule_claim (hx : Inv x) :
    Rule x.history (.claimed operation want (x.answerClaim operation want)) := by
  rcases answerClaim_cases x operation want with
    ⟨hanswer, rec, hget, hne⟩ | ⟨rec, r, hanswer, hget, rfl, hr⟩ | ⟨hanswer, hopen⟩
  · rw [hanswer]
    exact ⟨rec.target, hne, hx.entry operation rec hget⟩
  · rw [hanswer]
    exact ⟨hx.result operation rec r hget hr, hx.entry operation rec hget⟩
  · rw [hanswer]
    refine ⟨fun r hr => ?_, fun w hw => ?_⟩
    · obtain ⟨rec, hget, hsome⟩ := hx.stored operation r hr
      simp [(hopen rec hget).2] at hsome
    · obtain ⟨rec, hget, rfl⟩ := hx.claimed operation w hw
      exact (hopen rec hget).1

/-- An event that is neither a reload begun nor a result stored. -/
theorem Inv.append (hx : Inv x) {ev : Done} (hrule : Rule x.history ev)
    (hgo : ∀ operation w, ev ≠ .claimed operation w .go)
    (hstored : ∀ operation r, ev ≠ .stored operation r) :
    Inv { x with history := x.history ++ [ev] } where
  rule := Code.guarded_append.mpr ⟨hx.rule, hrule, trivial⟩
  entry operation rec hget := List.mem_append_left _ (hx.entry operation rec hget)
  claimed operation w hw := by
    rcases List.mem_append.mp hw with hw | hw
    · exact hx.claimed operation w hw
    · exact absurd (List.mem_singleton.mp hw).symm (hgo operation w)
  result operation rec r hget hr := List.mem_append_left _ (hx.result operation rec r hget hr)
  stored operation r hr := by
    rcases List.mem_append.mp hr with hr | hr
    · exact hx.stored operation r hr
    · exact absurd (List.mem_singleton.mp hr).symm (hstored operation r)

/-- The reload goes on: an entry without a result. -/
theorem inv_go (hx : Inv x) (hgo : x.answerClaim operation want = .go)
    (hopen : ∀ rec, x.ops.get? operation = some rec → rec.target = want ∧ rec.result = none) :
    Inv (x.claim operation want) := by
  have hops : (x.claim operation want).ops = x.ops.insert operation ⟨want, none⟩ := if_pos hgo
  have hrule : Rule x.history (.claimed operation want (x.answerClaim operation want)) :=
    rule_claim hx
  have hhistory : (x.claim operation want).history =
      x.history ++ [.claimed operation want .go] := by rw [Shared.claim, hgo]
  rw [hgo] at hrule
  refine ⟨?_, ?_, ?_, ?_, ?_⟩
  · rw [hhistory]
    exact Code.guarded_append.mpr ⟨hx.rule, hrule, trivial⟩
  · intro op rec hget
    rw [hops, Dict.get?_insert] at hget
    rw [hhistory]
    split at hget
    · rename_i heq
      cases hget
      simp [heq]
    · exact List.mem_append_left _ (hx.entry op rec hget)
  · intro op w hw
    rw [hhistory] at hw
    rw [hops, Dict.get?_insert]
    split
    · rename_i heq
      subst heq
      refine ⟨⟨want, none⟩, rfl, ?_⟩
      rcases List.mem_append.mp hw with hw | hw
      · exact (hrule.2 w hw).symm
      · cases List.mem_singleton.mp hw
        rfl
    · rename_i hne
      rcases List.mem_append.mp hw with hw | hw
      · exact hx.claimed op w hw
      · cases List.mem_singleton.mp hw
        exact absurd rfl hne
  · intro op rec r hget hr
    rw [hops, Dict.get?_insert] at hget
    rw [hhistory]
    split at hget
    · cases hget
      cases hr
    · exact List.mem_append_left _ (hx.result op rec r hget hr)
  · intro op r hr
    rw [hhistory] at hr
    have hr : Done.stored op r ∈ x.history := by simpa using hr
    obtain ⟨rec, hget, hsome⟩ := hx.stored op r hr
    have hne : op ≠ operation := by
      rintro rfl
      simp [(hopen rec hget).2] at hsome
    exact ⟨rec, by rw [hops, Dict.get?_insert, if_neg hne, hget], hsome⟩

theorem inv_claim (hx : Inv x) : Inv (x.claim operation want) := by
  by_cases hgo : x.answerClaim operation want = .go
  · rcases answerClaim_cases x operation want with ⟨h, -⟩ | ⟨_, _, h, -⟩ | ⟨-, hopen⟩
    · rw [hgo] at h
      cases h
    · rw [hgo] at h
      cases h
    · exact inv_go hx hgo hopen
  · have hclaim : x.claim operation want =
        ⟨x.ops, x.history ++ [.claimed operation want (x.answerClaim operation want)]⟩ := by
      rw [Shared.claim, if_neg hgo]
    rw [hclaim]
    refine hx.append (rule_claim hx) (fun op w heq => ?_) (fun op r heq => nomatch heq)
    exact hgo (Done.claimed.inj heq).2.2

theorem inv_store (hx : Inv x) {r : Result} (hrule : Rule x.history (.stored operation r)) :
    Inv (x.store operation r) := by
  obtain ⟨-, -, w, hclaimed, -⟩ := id hrule
  refine ⟨Code.guarded_append.mpr ⟨hx.rule, hrule, trivial⟩, ?_, ?_, ?_, ?_⟩
  · intro op rec hget
    refine List.mem_append_left _ ?_
    simp only [Shared.store, Dict.get?_modify] at hget
    split at hget
    · obtain ⟨old, hold, rfl⟩ := Option.map_eq_some_iff.mp hget
      exact hx.entry op old hold
    · exact hx.entry op rec hget
  · intro op w hw
    obtain ⟨rec, hget, htarget⟩ := hx.claimed op w (by simpa [Shared.store] using hw)
    simp only [Shared.store, Dict.get?_modify]
    split
    · exact ⟨{ rec with result := some r }, by rw [hget]; rfl, htarget⟩
    · exact ⟨rec, hget, htarget⟩
  · intro op rec r' hget hr
    simp only [Shared.store, Dict.get?_modify] at hget ⊢
    split at hget
    · rename_i heq
      obtain ⟨old, -, rfl⟩ := Option.map_eq_some_iff.mp hget
      cases hr
      simp [heq]
    · exact List.mem_append_left _ (hx.result op rec r' hget hr)
  · intro op r' hr
    simp only [Shared.store, Dict.get?_modify]
    split
    · rename_i heq
      obtain ⟨rec, hget, -⟩ := hx.claimed operation w hclaimed
      exact ⟨{ rec with result := some r }, by rw [heq, hget]; rfl, rfl⟩
    · rename_i hne
      have hr : Done.stored op r' ∈ x.history := by
        rcases List.mem_append.mp hr with hr | hr
        · exact hr
        · cases List.mem_singleton.mp hr
          exact absurd rfl hne
      exact hx.stored op r' hr

theorem inv_answer (hx : Inv x) {q : Request} {out : Except Err Result}
    (hout : Answered x.history q out) : Inv (x.answer q out) :=
  hx.append hout (fun _ _ heq => nomatch heq) fun _ _ heq => nomatch heq

/-! ## Programs -/

def rely (x y : Shared) : Prop := ∀ ev ∈ x.history, ev ∈ y.history

abbrev spec (β : Type) : Code.Spec Shared (Choice β) (Op β) (Reply β) where
  exec := exec
  inv := Inv
  cond _ _ _ := True
  rely := rely
  guar := rely

/-- A call that leaves the table alone. -/
def Op.offTable : Op β → Prop
  | .claim .. | .store .. => False
  | _ => True

theorem exec_offTable {c : Choice β} {o : Op β} (ho : o.offTable) :
    exec c x o = some (x, c.reply o) := by
  cases o <;> first | rfl | exact absurd ho id

/-- A program that leaves the table alone, and raises no mismatch. -/
abbrev Aside {α : Type} (t : Prog β α) : Prop := t.Within Op.offTable (· ≠ .targetMismatch)

section

variable {α γ : Type}

theorem aside_ask {o : Op β} (ho : o.offTable) : Aside (ask o) := Code.within_op ho

theorem aside_orFailed {reply : Option α} : Aside (orFailed reply : Prog β α) := by
  cases reply with
  | none => exact fun h => nomatch h
  | some a => trivial

theorem aside_refuseUnless {ok : Bool} {t : Prog β γ} (ht : Aside t) :
    Aside (refuseUnless ok >>= fun _ => t) := by
  cases ok with
  | false => exact fun h => nomatch h
  | true => exact ht

theorem aside_ensureLoaded {e : EngineId} : Aside (ensureLoaded e : Prog β ℚ) :=
  Code.within_bind (aside_ask trivial) fun _ => aside_orFailed

theorem aside_unload {e : EngineId} : Aside (unload e : Prog β UnloadStatus) :=
  Code.within_bind (aside_ask trivial) fun _ => aside_orFailed

theorem aside_available {e : EngineId} : Aside (available e : Prog β Bool) :=
  Code.within_bind (aside_ask trivial) fun _ => aside_orFailed

theorem aside_batchActive {given : Bool} : Aside (batchActive given : Prog β Bool) := by
  cases given with
  | false => trivial
  | true => exact Code.within_bind (aside_ask trivial) fun _ => aside_orFailed

theorem aside_identified {f : Identity → Result} :
    Aside (do return f (← ask .boundIdentity) : Prog β Result) :=
  Code.within_bind (aside_ask trivial) fun _ => trivial

theorem aside_loadFreed {target h : EngineId} : Aside (loadFreed target h : Prog β Swapped) := by
  refine Code.within_result aside_ensureLoaded (fun ms => trivial) fun e he => ?_
  refine Code.within_bind (aside_ask trivial) fun _ => ?_
  refine Code.within_result aside_ensureLoaded (fun ms => ?_) fun e' _ => ?_
  · exact Code.within_bind (aside_ask trivial) fun _ => he
  · exact Code.within_bind (aside_ask trivial) fun _ => he

theorem aside_evict {target h : EngineId} : Aside (evict target h : Prog β Swapped) := by
  refine Code.within_bind aside_unload fun s => ?_
  by_cases hs : s.done
  · rw [if_pos hs]
    exact aside_loadFreed
  · rw [if_neg hs]
    exact fun h => nomatch h

theorem aside_loadOnly {target : EngineId} : Aside (loadOnly target : Prog β Swapped) :=
  Code.within_bind aside_ensureLoaded fun _ => trivial

theorem aside_swapHeld {given : Bool} {target : EngineId} {h : Holder} :
    Aside (swapHeld given target h : Prog β Swapped) := by
  refine aside_refuseUnless (Code.within_bind aside_batchActive fun _ => aside_refuseUnless ?_)
  refine Code.within_bind (aside_ask trivial) fun _ => aside_refuseUnless ?_
  refine Code.within_bind (aside_ask trivial) fun _ => aside_refuseUnless ?_
  refine Code.within_bind (aside_ask trivial) fun _ => aside_refuseUnless ?_
  exact Code.within_bind aside_available fun _ => aside_refuseUnless aside_evict

theorem aside_swapReserved {given : Bool} {target : EngineId} :
    Aside (swapReserved given target : Prog β Swapped) := by
  refine Code.within_bind (aside_ask trivial) fun holder => ?_
  cases holder with
  | none => exact aside_loadOnly
  | some h =>
    by_cases ht : h.tenant = target
    · simpa only [ht, ↓reduceIte] using aside_loadOnly
    · simpa only [ht, ↓reduceIte] using aside_swapHeld

theorem aside_preemptFor {given : Bool} {target : EngineId} :
    Aside (preemptFor given target : Prog β Swapped) := by
  refine Code.within_bind (aside_ask trivial) fun _ => aside_refuseUnless ?_
  refine Code.within_bind (aside_ask trivial) fun _ => aside_refuseUnless ?_
  refine Code.within_result aside_swapReserved (fun s => ?_) fun e he => ?_
  · exact Code.within_bind (aside_ask trivial) fun _ => trivial
  · exact Code.within_bind (aside_ask trivial) fun _ => he

theorem aside_forceReload {prior : β} : Aside (forceReload prior) := by
  refine Code.within_bind aside_unload fun s => ?_
  by_cases hs : s.done
  · rw [if_pos hs]
    refine Code.within_result aside_ensureLoaded (fun ms => aside_identified) fun e he => ?_
    refine Code.within_bind (aside_ask trivial) fun _ => ?_
    exact Code.within_result aside_ensureLoaded (fun _ => he) fun _ _ => he
  · rw [if_neg hs]
    exact fun h => nomatch h

theorem aside_reloadHeld {given preempt : Bool} {prior : β} {h : Holder} :
    Aside (reloadHeld given preempt prior h) := by
  refine Code.within_bind (aside_ask trivial) fun loaded => ?_
  refine Code.within_bind (aside_ask trivial) fun bound => ?_
  split
  · exact aside_identified
  · refine aside_refuseUnless (Code.within_bind aside_batchActive fun _ => ?_)
    exact aside_refuseUnless (aside_refuseUnless aside_forceReload)

theorem aside_reloadBySwap {given preempt : Bool} {h : Holder} :
    Aside (reloadBySwap given preempt h : Prog β Result) :=
  aside_refuseUnless (aside_refuseUnless
    (Code.within_bind aside_preemptFor fun _ => aside_identified))

theorem aside_reloadServingLlm {given preempt : Bool} :
    Aside (reloadServingLlm given preempt : Prog β Result) := by
  refine Code.within_bind (aside_ask trivial) fun _ => aside_refuseUnless ?_
  refine Code.within_bind (aside_ask trivial) fun prior => ?_
  refine Code.within_bind (aside_ask trivial) fun rebound => ?_
  cases rebound with
  | false => exact fun h => nomatch h
  | true =>
  refine Code.within_bind aside_available fun ok => ?_
  cases ok with
  | false => exact fun h => nomatch h
  | true =>
  refine Code.within_bind (aside_ask trivial) fun holder => ?_
  cases holder with
  | none => exact Code.within_bind aside_ensureLoaded fun _ => aside_identified
  | some h =>
    by_cases hllm : h.tenant = "llm"
    · simpa only [hllm, ↓reduceIte] using aside_reloadHeld
    · simpa only [hllm, ↓reduceIte] using aside_reloadBySwap

end

/-- A reload returns a result of its own. -/
theorem reload_returns {given preempt : Bool} {l : Log β} {r : Result}
    (he : (reloadServingLlm given preempt).Ends l (.ok r)) :
    r.replayed = false ∧ r.status ≠ .verifyFailed := by
  cases reloadServingLlm_ends he <;> exact ⟨rfl, fun h => nomatch h⟩

theorem Answered.mono {p p' : List Done} {q : Request} {out : Except Err Result}
    (h : Answered p q out) (hp : ∀ ev ∈ p, ev ∈ p') : Answered p' q out := by
  intro operation hkey
  rcases h operation hkey with ⟨hout, hmem⟩ | ⟨r, hout, hmem⟩ | ⟨hmem, hout, hok⟩
  · exact .inl ⟨hout, hp _ hmem⟩
  · exact .inr (.inl ⟨r, hout, hp _ hmem⟩)
  · exact .inr (.inr ⟨hp _ hmem, hout, fun r hr => (hok r hr).imp_right (hp _)⟩)

/-- The reload itself, between the claim and the store. -/
theorem meets_reload {given : Bool} {q : Request} {J : Shared → Prop}
    (hstable : ∀ x y, J x → rely x y → J y) (hx : J x) :
    (reloadServingLlm given q.preempt).Meets (spec β)
      (fun r y => (r.replayed = false ∧ r.status ≠ .verifyFailed) ∧ J y)
      (fun e y => e ≠ .targetMismatch ∧ J y) x := by
  refine Code.meets_of_within aside_reloadServingLlm (fun l r he => reload_returns he) ?_
    hstable hx
  intro c x o x' r ho hJ hinv _ hexec
  obtain ⟨rfl, rfl⟩ := Prod.mk.inj (Option.some.inj ((exec_offTable ho).symm.trans hexec))
  exact ⟨hinv, fun _ h => h, hJ⟩

/-- A result is stored, where it is the target's. -/
theorem meets_store {q : Request} {r : Result} {f : Unit → Prog β Result}
    {post : Result → Shared → Prop} {raises : Err → Shared → Prop}
    (hr : r.replayed = false ∧ r.status ≠ .verifyFailed) (hverified : verified q.want r = true)
    (hx : .claimed operation q.want .go ∈ x.history)
    (hf : ∀ y, .claimed operation q.want .go ∈ y.history → .stored operation r ∈ y.history →
      (f ()).Meets (spec β) post raises y) :
    (ask (.store operation r) >>= f).Meets (spec β) post raises x := by
  refine Code.meets_bind (Code.meets_op fun c x' reply hinv _ hexec => ?_)
  obtain ⟨rfl, rfl⟩ := Prod.mk.inj (Option.some.inj hexec)
  refine ⟨inv_store hinv ⟨hr.1, hr.2, q.want, hx, hverified⟩, ?_,
    fun y _ hy => hf y (hy _ ?_) (hy _ ?_)⟩
  · exact fun ev hev => List.mem_append_left _ hev
  · simp [Shared.store, hx]
  · simp [Shared.store]

theorem meets_operation {given : Bool} {q : Request} (hkey : q.key = some operation) :
    (reloadServingLlmOp given q).Meets (spec β) (fun r y => Answered y.history q (.ok r))
      (fun e y => Answered y.history q (.error e)) x := by
  have hself : ∀ {P : OperationId → Prop}, P operation → ∀ op, q.key = some op → P op := by
    intro P hP op hop
    obtain rfl := Option.some.inj (hkey.symm.trans hop)
    exact hP
  unfold reloadServingLlmOp
  rw [hkey]
  refine Code.meets_bind (Code.meets_op fun c x' reply hinv _ hexec => ?_)
  obtain ⟨rfl, rfl⟩ := Prod.mk.inj (Option.some.inj hexec)
  refine ⟨inv_claim hinv, fun ev hev => by simp [Shared.claim, hev], fun y hy hrely => ?_⟩
  have hclaimed : .claimed operation q.want (x.answerClaim operation q.want) ∈ y.history :=
    hrely _ (by simp [Shared.claim])
  generalize x.answerClaim operation q.want = reply at hclaimed
  cases reply with
  | mismatch => exact hself (.inl ⟨rfl, hclaimed⟩)
  | stored r => exact hself (.inr (.inl ⟨r, rfl, hclaimed⟩))
  | go =>
    have hstable : ∀ x y : Shared, .claimed operation q.want .go ∈ x.history → rely x y →
        .claimed operation q.want .go ∈ y.history := fun x y h hxy => hxy _ h
    refine Code.meets_bind ((meets_reload hstable hclaimed).mono (fun r z hz => ?_)
      fun e z hz => ?_)
    · obtain ⟨hr, hz⟩ := hz
      by_cases hverified : verified q.want r
      · rw [if_pos hverified]
        refine meets_store hr hverified hz fun w hw hstored => ?_
        refine hself (.inr (.inr ⟨hw, (fun h => nomatch h), fun r' hr' => .inr ?_⟩))
        obtain rfl := Except.ok.inj hr'
        exact hstored
      · rw [if_neg hverified]
        refine hself (.inr (.inr ⟨hz, (fun h => nomatch h), fun r' hr' => .inl ?_⟩))
        obtain rfl := Except.ok.inj hr'
        rfl
    · exact hself (.inr (.inr ⟨hz.2, fun h => hz.1 (Except.error.inj h),
        fun r' hr' => nomatch hr'⟩))

theorem meets_serve {given : Bool} {q : Request} :
    (serve given q).Meets (spec β) (fun a y => Answered y.history a.1 a.2)
      (fun _ _ => False) x := by
  refine Code.meets_bind (Code.meets_result ?_)
  cases hkey : q.key with
  | none =>
    have hany : ∀ out (y : Shared), Answered y.history q out := fun out y op hop =>
      absurd (hkey.symm.trans hop) (by simp)
    unfold reloadServingLlmOp
    rw [hkey]
    exact (meets_reload (J := fun _ => True) (fun _ _ _ _ => trivial) trivial).mono
      (fun r y _ => hany (.ok r) y) fun e y _ => hany (.error e) y
  | some operation => exact meets_operation hkey

/-! ## The machine -/

theorem sound : Code.SoundTo (machine β) Inv (fun _ _ _ _ => True) (fun _ _ _ => True)
    (fun _ => rely) (fun _ => rely) (fun _ _ => True)
    (fun _ r x => ∃ q out, r = .ok (q, out) ∧ Answered x.history q out) where
  refl _ _ _ h := h
  trans _ _ _ _ hxy hyz ev h := hyz ev (hxy ev h)
  epoch _ _ _ _ := rfl
  epoch_guar _ _ _ _ := rfl
  others _ _ _ _ _ h := h
  stable _ _ _ _ _ := trivial
  spawn t c x code hspawn y _ _ := by
    obtain rfl := Option.some.inj hspawn
    exact meets_serve.mono (fun a z hz => ⟨a.1, a.2, rfl, hz⟩) fun _ _ h => h.elim
  env _ _ _ _ _ _ h := nomatch h
  finish t x r hx h := by
    obtain ⟨q, out, rfl, hanswered⟩ := h
    refine ⟨inv_answer hx hanswered, trivial, fun _ _ ev hev => ?_⟩
    exact List.mem_append_left _ hev

theorem Reachable.inv {s : Sys β} (h : Reachable s) : Inv s.shared :=
  (sound.holds inv_init (fun _ => trivial)
    (h.mono fun _ _ _ => Code.okStep_of_call (fun _ => trivial) fun _ _ => trivial)).global

/-- What the history of a table shows. -/
structure Honest (h : List Done) : Prop where
  /-- an operation has one target -/
  target : ∀ operation w w' reply reply', .claimed operation w reply ∈ h →
    .claimed operation w' reply' ∈ h → reply ≠ .mismatch → reply' ≠ .mismatch → w = w'
  /-- and is not reloaded after a result of it is stored -/
  once : ∀ p t operation w, h = p ++ .claimed operation w .go :: t →
    ∀ r, .stored operation r ∉ p
  mismatch : ∀ p t q operation, h = p ++ .answered q (.error .targetMismatch) :: t →
    q.key = some operation → ∃ w, w ≠ q.want ∧ .claimed operation w .go ∈ p
  /-- a success has the identity of the target, and is stored or a stored one again -/
  success : ∀ p t q operation r, h = p ++ .answered q (.ok r) :: t → q.key = some operation →
    r.status ≠ .verifyFailed → verified q.want r = true ∧
      ∃ r₀, .stored operation r₀ ∈ p ∧ r₀.replayed = false ∧
        (r = r₀ ∨ r = { r₀ with replayed := true })

section

variable {h p t : List Done}

theorem rule_at (hh : Code.Guarded Rule [] h) {ev : Done} (hev : ev ∈ h) :
    ∃ p t, h = p ++ ev :: t ∧ Rule p ev := by
  obtain ⟨p, t, rfl⟩ := List.append_of_mem hev
  exact ⟨p, t, rfl, hh.at rfl⟩

theorem guarded_before (hh : Code.Guarded Rule [] h) (hp : h = p ++ t) :
    Code.Guarded Rule [] p := by
  subst hp
  exact (Code.guarded_append.mp hh).1

/-- Where a claim did not mismatch, one with that target went on to reload. -/
theorem go_of_claimed (hh : Code.Guarded Rule [] h) {w : Want} {reply : Claimed}
    (hmem : .claimed operation w reply ∈ h) (hreply : reply ≠ .mismatch) :
    .claimed operation w .go ∈ h := by
  obtain ⟨p, t, rfl, hrule⟩ := rule_at hh hmem
  cases reply with
  | mismatch => exact absurd rfl hreply
  | go => exact hmem
  | stored r => exact List.mem_append_left _ hrule.2

theorem target_unique (hx : Inv x) {w w' : Want} (hw : .claimed operation w .go ∈ x.history)
    (hw' : .claimed operation w' .go ∈ x.history) : w = w' := by
  obtain ⟨rec, hget, rfl⟩ := hx.claimed operation w hw
  obtain ⟨rec', hget', rfl⟩ := hx.claimed operation w' hw'
  rw [Option.some.inj (hget.symm.trans hget')]

/-- A stored result, for the target that the operation has. -/
theorem stored_verified (hx : Inv x) (hp : x.history = p ++ t) {w : Want} {r : Result}
    (hr : .stored operation r ∈ p) (hw : .claimed operation w .go ∈ p) :
    r.replayed = false ∧ verified w r = true := by
  obtain ⟨p', t', rfl, hfresh, -, w', hw', hverified⟩ := rule_at (guarded_before hx.rule hp) hr
  have hw'' : .claimed operation w' .go ∈ x.history := by
    rw [hp]
    exact List.mem_append_left _ (List.mem_append_left _ hw')
  obtain rfl : w' = w := target_unique hx hw'' (by
    rw [hp]
    exact List.mem_append_left _ hw)
  exact ⟨hfresh, hverified⟩

end

/-- The slot is free, and the target loads. -/
def granted : (o : Op Unit) → Reply Unit o
  | .registered _ | .enabled _ | .rebind | .beginSwap _ => true
  | .wedged _ => false
  | .available _ => some true
  | .snapshotBinding | .restoreBinding _ | .endSwap _ | .retargetSwap .. | .store .. => ()
  | .holder => none
  | .ensureLoaded _ => some 1
  | .unload _ => some .unloaded
  | .boundIdentity => ⟨"chat", some "2"⟩
  | .loadedIdentity => none
  | .batchActive => some false
  | .claim .. => .go

/-- The request of two threads, the second when the first has its answer. -/
def twice (s : Sys Unit) : Bool :=
  match s.shared.history with
  | [.claimed _ _ .go, .stored .., .answered .., .claimed _ _ (.stored _), .answered _ (.ok r)] =>
      r.replayed
  | _ => false

end MlopsLite.HostAgent.Reload
