import MlopsLite.Gateway.Settlement.Books
import MlopsLite.PlatformLib.Metering.Reconcile

/-!
# Settlement — exactly once

Where every append to the log returns, the log is a list of entries, one for each call that
the store has not resolved. A replay that has no failure leaves all of them resolved, and what
is resolved has its row, or the reservation has been released.
-/

namespace MlopsLite.Gateway.Settlement

open HostAgent.Frames (key)
open Outbox (FloatRepr Record walAppend walEntries walCompact told written)
open PlatformLib (CallId OpKey ReservationState StoreCall StoreChoice Window)
open Utf16Json (Units Doc)
open ChatStream (Loaded truthy)

variable {repr : FloatRepr} {trunc : Window → PlatformLib.Time → PlatformLib.Time}
  {x y : Shared repr} {pc pc' : Pc repr} {f g : Finish repr}

/-! ## What a step can do -/

/-- Every outcome of a step that is no append cut short, guards included. -/
inductive Moves (trunc : Window → PlatformLib.Time → PlatformLib.Time) (x : Shared repr) :
    Pc repr → Shared repr → Pc repr → Prop
  | finish {f : Finish repr} (h : x.fresh f = true) :
      Moves trunc x .idle
        { x with log := walAppend repr x.log f.record, finishes := x.finishes ++ [f] } (.begun f)
  | replay : Moves trunc x .idle x (.replays x.finishes (walEntries x.log) [] 0)
  | store {c : CallId} {choice : StoreChoice} {y : Shared repr}
      (h : x.store trunc c choice = some y) : Moves trunc x .idle y .idle
  | call {f : Finish repr} {c : CallId} {y : Shared repr}
      (h : x.call trunc c f.storeCall = some y) : Moves trunc x (.begun f) y (.waits f c)
  | answered {f : Finish repr} {c : CallId} {state} (h : x.db.pc c = .finished state) :
      Moves trunc x (.waits f c) x (.answered f state)
  | returns {pc : Pc repr} {r : Result} : Moves trunc x pc x (.returned r)
  | compacts {f : Finish repr} {state log r}
      (h : walCompact repr [.str (key f.op)] x.log = some log) :
      Moves trunc x (.answered f state) { x with log := log } (.returned r)
  | asks {since members todo done failed c q} {y : Shared repr}
      (hid : truthy (ChatStream.get members "op_id") = true) (hq : request members = some q)
      (h : x.call trunc c q = some y) :
      Moves trunc x (.replays since (.obj members :: todo) done failed) y
        (.asks since (ChatStream.get members "op_id") c todo done failed)
  | misses {since e todo done failed} :
      Moves trunc x (.replays since (e :: todo) done failed) x
        (.replays since todo done (failed + 1))
  | skips {since members todo done failed}
      (hid : truthy (ChatStream.get members "op_id") = false) :
      Moves trunc x (.replays since (.obj members :: todo) done failed) x
        (.replays since todo done failed)
  | asked {since opId c todo done failed state} (h : x.db.pc c = .finished state) :
      Moves trunc x (.asks since opId c todo done failed) x
        (.replays since todo (opId :: done) failed)
  | fails {since opId c todo done failed} :
      Moves trunc x (.asks since opId c todo done failed) x
        (.replays since todo done (failed + 1))
  | replayed {since done failed} :
      Moves trunc x (.replays since [] done failed) x (.replayed since failed)
  | trims {since done failed} :
      Moves trunc x (.replays since [] done failed) x (.trims since done failed)
  | trimmed {since done failed log} (h : walCompact repr done x.log = some log) :
      Moves trunc x (.trims since done failed) { x with log := log } (.replayed since failed)
  | breaks {pc : Pc repr} : Moves trunc x pc x .broken
  | dies {pc : Pc repr} : Moves trunc x pc x .dead

theorem moves_of_entry {since : List (Finish repr)} {todo done : List (Doc Loaded)} {failed : ℕ}
    {e : Doc Loaded} {choice : Choice repr}
    (h : replayEntry trunc x since todo done failed e choice = some (y, pc')) :
    Moves trunc x (.replays since (e :: todo) done failed) y pc' := by
  cases e with
  | obj members =>
    simp only [replayEntry] at h
    split_ifs at h with hid
    · split at h
      · rename_i q hq
        obtain ⟨z, hz, heq⟩ := Option.map_eq_some_iff.mp h
        cases heq
        exact .asks hid hq hz
      · cases h
        exact .misses
      · cases h
        exact .misses
      · cases h
    · cases h
      exact .skips (by simpa using hid)
  | null | bool | num | str | arr =>
    cases h
    exact .breaks

theorem moves_of_advance {t : ℕ} {choice : Choice repr} (hcuts : choice.cuts = false)
    (h : advance trunc t choice x pc = some (y, pc')) : Moves trunc x pc y pc' := by
  by_cases hdies : choice = .dies
  · subst hdies
    have heq : some (x, Pc.dead) = some (y, pc') := by
      rw [← h]
      cases pc <;> rfl
    cases heq
    exact .dies
  cases pc with
  | idle =>
    cases choice with
    | finish f =>
      simp only [advance] at h
      split_ifs at h with hfresh
      cases h
      exact .finish hfresh
    | cut => cases hcuts
    | replay =>
      cases h
      exact .replay
    | store c choice =>
      obtain ⟨z, hz, heq⟩ := Option.map_eq_some_iff.mp h
      cases heq
      exact .store hz
    | dies => exact absurd rfl hdies
    | _ => cases h
  | begun f =>
    cases choice with
    | go c =>
      obtain ⟨z, hz, heq⟩ := Option.map_eq_some_iff.mp h
      cases heq
      exact .call hz
    | fails =>
      cases h
      exact .returns
    | dies => exact absurd rfl hdies
    | _ => cases h
  | waits f c =>
    cases choice with
    | go c' =>
      simp only [advance] at h
      split at h
      · rename_i hpc
        cases h
        exact .answered hpc
      · cases h
        exact .returns
      · cases h
    | dies => exact absurd rfl hdies
    | _ => cases h
  | answered f state =>
    cases choice with
    | go c =>
      simp only [advance] at h
      split at h
      · rename_i hlog
        cases h
        exact .compacts hlog
      · cases h
        exact .returns
    | fails =>
      cases h
      exact .returns
    | dies => exact absurd rfl hdies
    | _ => cases h
  | replays since todo done failed =>
    cases todo with
    | nil =>
      cases choice with
      | go c =>
        simp only [advance] at h
        split_ifs at h
        · cases h
          exact .replayed
        · cases h
          exact .trims
      | dies => exact absurd rfl hdies
      | _ => cases h
    | cons e todo =>
      have hentry : replayEntry trunc x since todo done failed e choice = some (y, pc') := by
        cases choice with
        | dies => exact absurd rfl hdies
        | _ => exact h
      exact moves_of_entry hentry
  | asks since opId c todo done failed =>
    cases choice with
    | go c' =>
      simp only [advance] at h
      split at h
      · rename_i hpc
        cases h
        exact .asked hpc
      · cases h
        exact .fails
      · cases h
    | dies => exact absurd rfl hdies
    | _ => cases h
  | trims since done failed =>
    cases choice with
    | go c =>
      simp only [advance] at h
      split at h
      · rename_i hlog
        cases h
        exact .trimmed hlog
      · cases h
        exact .breaks
    | fails =>
      cases h
      exact .breaks
    | dies => exact absurd rfl hdies
    | _ => cases h
  | returned | raised | replayed | broken | dead =>
    cases choice with
    | dies => exact absurd rfl hdies
    | _ => cases h

/-! ## The entry of a call -/

theorem key_injective {a b : String} (h : key a = key b) : a = b := by
  have hchars := congrArg Utf16Json.chars h
  rw [key, key, Utf16Json.chars_flatMap_units, Utf16Json.chars_flatMap_units] at hchars
  exact String.toList_inj.mp (Option.some.inj hchars)

theorem key_beq (a b : String) : (key a == key b) = decide (a = b) := by
  rw [beq_eq_decide, decide_eq_decide]
  exact ⟨key_injective, congrArg key⟩

theorem opId_record (f : Finish repr) : f.record.opId = key f.op := by cases f <;> rfl

theorem truthy_key {op : String} (h : op ≠ "") : truthy (.str (key op)) = true := by
  have hne : key op ≠ [] := fun heq => h (key_injective heq)
  simpa [truthy, List.isEmpty_iff] using hne

theorem secondsOf_settlement (opId : Units) (actual : Seconds repr) (time : Outbox.PyFloat repr) :
    secondsOf (Record.settlement opId ⟨.fin actual.value, actual.back⟩ time).members =
      some actual.value := by
  have hget : ChatStream.get
      (Record.settlement opId ⟨.fin actual.value, actual.back⟩ time).members "gpu_seconds" =
      .num (.float (.fin actual.value)) := by
    simp [ChatStream.get, Record.members, List.lookup, key_beq]
  rw [secondsOf, hget]
  by_cases hzero : actual.value = 0
  · simp [truthy, hzero]
  · simp [truthy, hzero, Outbox.numeric]

/-- A replay makes the call of an entry again. -/
theorem request_record (f : Finish repr) : request f.record.members = some f.storeCall := by
  have hchars : ∀ op : String, Utf16Json.chars (key op) = some op.toList :=
    fun op => Utf16Json.chars_flatMap_units _
  rw [request, Outbox.get_opId, opId_record]
  dsimp only
  rw [hchars, Option.bind_some, String.ofList_toList]
  cases f with
  | settle op actual time =>
    have hrelease : ChatStream.get (Finish.settle op actual time).record.members "release" =
        .null := by
      simp [ChatStream.get, Finish.record, Record.members, List.lookup, key_beq]
    rw [hrelease, Finish.record, secondsOf_settlement]
    rfl
  | release op time =>
    have hrelease : ChatStream.get (Finish.release op time : Finish repr).record.members "release" =
        .bool true := by
      simp [ChatStream.get, Finish.record, Record.members, List.lookup, key_beq]
    rw [hrelease]
    rfl

/-! ## The log -/

/-- The log has entries of calls, and one for every call that is not resolved. -/
def Logged (x : Shared repr) : Prop :=
  ∃ gs : List (Finish repr), x.log = written (gs.map Finish.record) ∧ gs ⊆ x.finishes ∧
    ∀ f ∈ x.finishes, f ∈ gs ∨ Resolved x.db.shared f.op

/-- Each of them is the op id of a call that is resolved. -/
def Done (x : Shared repr) (done : List (Doc Loaded)) : Prop :=
  ∀ d ∈ done, ∃ f ∈ x.finishes, d = .str (key f.op) ∧ Resolved x.db.shared f.op

theorem Logged.append (h : Logged x) (f : Finish repr) :
    Logged { x with log := walAppend repr x.log f.record, finishes := x.finishes ++ [f] } := by
  obtain ⟨gs, hlog, hsub, hall⟩ := h
  refine ⟨gs ++ [f], ?_, ?_, ?_⟩
  · rw [hlog, Outbox.walAppend_written, List.map_append, List.map_singleton]
  · exact List.append_subset.mpr ⟨fun g hg => List.mem_append_left _ (hsub hg),
      List.subset_append_right _ _⟩
  · intro g hg
    rcases List.mem_append.mp hg with hg | hg
    · exact (hall g hg).imp_left (List.mem_append_left _)
    · exact .inl (List.mem_append_right _ hg)

/-- What a compaction removes is resolved. -/
theorem Logged.compact (h : Logged x) {done : List (Doc Loaded)} (hdone : Done x done)
    {log : List Char} (hlog : walCompact repr done x.log = some log) :
    Logged { x with log := log } := by
  obtain ⟨gs, hwritten, hsub, hall⟩ := h
  rw [hwritten, Outbox.walCompact_written, Option.some.injEq] at hlog
  refine ⟨gs.filter fun g => !told done g.record, ?_, ?_, fun f hf => ?_⟩
  · rw [← hlog, List.filter_map]
    rfl
  · exact fun g hg => hsub (List.mem_of_mem_filter hg)
  · rcases hall f hf with hgs | hresolved
    · by_cases htold : told done f.record = true
      · obtain ⟨d, hd, heq⟩ := List.any_eq_true.mp htold
        obtain ⟨g, -, rfl, hresolved⟩ := hdone d hd
        have hop : key f.op = key g.op := by
          rw [opId_record] at heq
          simpa [Outbox.equal] using heq
        rw [key_injective hop]
        exact .inr hresolved
      · exact .inl (List.mem_filter.mpr ⟨hgs, by simpa using htold⟩)
    · exact .inr hresolved

theorem Logged.entries (h : Logged x) :
    (∀ e ∈ walEntries x.log, ∃ f ∈ x.finishes, e = f.record.doc) ∧
      ∀ f ∈ x.finishes, Resolved x.db.shared f.op ∨ f.record.doc ∈ walEntries x.log := by
  obtain ⟨gs, hlog, hsub, hall⟩ := h
  rw [hlog, Outbox.walEntries_written, List.map_map]
  refine ⟨fun e he => ?_, fun f hf => ?_⟩
  · obtain ⟨f, hf, rfl⟩ := List.mem_map.mp he
    exact ⟨f, hsub hf, rfl⟩
  · exact (hall f hf).symm.imp_right fun hgs => List.mem_map.mpr ⟨f, hgs, rfl⟩

/-! ## Assertions -/

structure Good (trunc : Window → PlatformLib.Time → PlatformLib.Time) (x : Shared repr) : Prop where
  books : Books trunc x.finishes x.db
  logged : Logged x
  named : ∀ f ∈ x.finishes, f.op ≠ ""

/-- What a replay has before it and behind it. -/
structure Replays (x : Shared repr) (since : List (Finish repr)) (todo done : List (Doc Loaded)) :
    Prop where
  since : since ⊆ x.finishes
  todo : ∀ e ∈ todo, ∃ f ∈ x.finishes, e = f.record.doc
  done : Done x done

/-- Each of the calls is resolved, still to be made again, or the one that `op` names. -/
def Covers (x : Shared repr) (since : List (Finish repr)) (todo : List (Doc Loaded))
    (op : Option OpKey) : Prop :=
  ∀ f ∈ since, Resolved x.db.shared f.op ∨ f.record.doc ∈ todo ∨ op = some f.op

def Local (x : Shared repr) : Pc repr → Prop
  | .idle | .returned _ | .broken | .dead => True
  | .raised => False
  | .begun f => f ∈ x.finishes
  | .waits f c => f ∈ x.finishes ∧ Serves x.db.shared f (x.db.pc c)
  | .answered f _ => f ∈ x.finishes ∧ Resolved x.db.shared f.op
  | .replays since todo done failed =>
      Replays x since todo done ∧ (failed = 0 → Covers x since todo none)
  | .asks since opId c todo done failed =>
      Replays x since todo done ∧ ∃ f ∈ x.finishes, opId = .str (key f.op) ∧
        Serves x.db.shared f (x.db.pc c) ∧ (failed = 0 → Covers x since todo (some f.op))
  | .trims since done failed =>
      Replays x since [] done ∧ (failed = 0 → Covers x since [] none)
  | .replayed since failed =>
      since ⊆ x.finishes ∧ (failed = 0 → ∀ f ∈ since, Resolved x.db.shared f.op)

/-- What other threads may do. -/
structure Grows (x y : Shared repr) : Prop where
  finishes : x.finishes ⊆ y.finishes
  later : Later x.finishes x.db y.db

theorem Grows.refl : Grows x x := ⟨List.Subset.refl _, .refl⟩

theorem Done.mono {done : List (Doc Loaded)} (h : Done x done) (hg : Grows x y) : Done y done := by
  intro d hd
  obtain ⟨f, hf, heq, hresolved⟩ := h d hd
  exact ⟨f, hg.finishes hf, heq, hg.later.resolved _ hresolved⟩

theorem Replays.mono {since : List (Finish repr)} {todo done : List (Doc Loaded)}
    (h : Replays x since todo done) (hg : Grows x y) : Replays y since todo done where
  since := fun _ hf => hg.finishes (h.since hf)
  todo e he := by
    obtain ⟨f, hf, heq⟩ := h.todo e he
    exact ⟨f, hg.finishes hf, heq⟩
  done := h.done.mono hg

theorem Covers.mono {since : List (Finish repr)} {todo : List (Doc Loaded)} {op : Option OpKey}
    (h : Covers x since todo op) (hg : Grows x y) : Covers y since todo op :=
  fun f hf => (h f hf).imp_left (hg.later.resolved _)

theorem Local.mono (h : Local x pc) (hg : Grows x y) : Local y pc := by
  cases pc with
  | begun f => exact hg.finishes h
  | waits f c => exact ⟨hg.finishes h.1, hg.later.serves f h.1 c h.2⟩
  | answered f state => exact ⟨hg.finishes h.1, hg.later.resolved _ h.2⟩
  | replays since todo done failed => exact ⟨h.1.mono hg, fun hzero => (h.2 hzero).mono hg⟩
  | asks since opId c todo done failed =>
    obtain ⟨hreplays, f, hf, heq, hserves, hcovers⟩ := h
    exact ⟨hreplays.mono hg, f, hg.finishes hf, heq, hg.later.serves f hf c hserves,
      fun hzero => (hcovers hzero).mono hg⟩
  | trims since done failed => exact ⟨h.1.mono hg, fun hzero => (h.2 hzero).mono hg⟩
  | replayed since failed =>
    exact ⟨fun _ hf => hg.finishes (h.1 hf),
      fun hzero f hf => hg.later.resolved _ (h.2 hzero f hf)⟩
  | _ => exact h

/-! ## Steps of the store -/

theorem Good.later (h : Good trunc x) {c : CallId} {choice : StoreChoice}
    {db : PlatformLib.Store.Sys}
    (hn : PlatformLib.Store.next trunc x.db (c, choice) = some db)
    (hcall : ∀ q, choice = .call q → Outside q ∨ ∃ f ∈ x.finishes, q = f.storeCall) :
    Good trunc { x with db := db } ∧ Grows x { x with db := db } := by
  have hlater := h.books.later hn
  refine ⟨⟨h.books.next hn hcall, ?_, h.named⟩, List.Subset.refl _, hlater⟩
  obtain ⟨gs, hlog, hsub, hall⟩ := h.logged
  exact ⟨gs, hlog, hsub, fun f hf => (hall f hf).imp_right (hlater.resolved _)⟩

theorem Good.store (h : Good trunc x) {c : CallId} {choice : StoreChoice}
    (hy : x.store trunc c choice = some y) : Good trunc y ∧ Grows x y := by
  have hother : ∀ {choice : StoreChoice}, (∀ q, choice = .call q → Outside q) →
      (PlatformLib.Store.next trunc x.db (c, choice)).map (fun db => { x with db := db }) = some y →
      Good trunc y ∧ Grows x y := by
    intro choice houtside hmap
    obtain ⟨db, hdb, rfl⟩ := Option.map_eq_some_iff.mp hmap
    exact h.later hdb fun q hq => .inl (houtside q hq)
  cases choice with
  | call q =>
    cases q with
    | settle | release => cases hy
    | reserve | sweep | setQuota =>
      refine hother (fun q hq => ?_) hy
      cases hq
      trivial
  | go | now | fails => exact hother (fun q hq => by cases hq) hy

/-- A call for `f` begins. -/
theorem Good.call (h : Good trunc x) {c : CallId} (hf : f ∈ x.finishes)
    (hy : x.call trunc c f.storeCall = some y) :
    Good trunc y ∧ Grows x y ∧ y.finishes = x.finishes ∧ Serves y.db.shared f (y.db.pc c) := by
  obtain ⟨db, hdb, rfl⟩ := Option.map_eq_some_iff.mp hy
  obtain ⟨hgood, hgrows⟩ := h.later hdb fun q hq => .inr ⟨f, hf, (StoreChoice.call.inj hq).symm⟩
  obtain ⟨hshared, hpc⟩ := enter_of_call hdb
  refine ⟨hgood, hgrows, rfl, ?_⟩
  rw [hpc, hshared]
  exact serves_enter (h.books.known f hf)

/-! ## Steps of the threads -/

theorem doc_injective (h : g.record.doc = f.record.doc) : g.op = f.op := by
  have hmembers : g.record.members = f.record.members := Doc.obj.inj h
  have hget := Outbox.get_opId g.record
  rw [hmembers, Outbox.get_opId, opId_record, opId_record] at hget
  exact key_injective (Doc.str.inj hget).symm

/-- The entry before the replay is taken up. -/
theorem Covers.take {since : List (Finish repr)} {todo : List (Doc Loaded)}
    (h : Covers x since (f.record.doc :: todo) none) : Covers x since todo (some f.op) := by
  intro g hg
  rcases h g hg with hresolved | hmem | hnone
  · exact .inl hresolved
  · rcases List.mem_cons.mp hmem with heq | hmem
    · exact .inr (.inr (by rw [doc_injective heq]))
    · exact .inr (.inl hmem)
  · cases hnone

/-- The entry that was taken up is resolved. -/
theorem Covers.put {since : List (Finish repr)} {todo : List (Doc Loaded)} {op : OpKey}
    (h : Covers x since todo (some op)) (hresolved : Resolved x.db.shared op) :
    Covers x since todo none := by
  intro g hg
  rcases h g hg with hg | hmem | heq
  · exact .inl hg
  · exact .inr (.inl hmem)
  · cases heq
    exact .inl hresolved

theorem Covers.all {since : List (Finish repr)} (h : Covers x since [] none) :
    ∀ f ∈ since, Resolved x.db.shared f.op := by
  intro f hf
  rcases h f hf with hresolved | hmem | hnone
  · exact hresolved
  · cases hmem
  · cases hnone

theorem Replays.tail {since : List (Finish repr)} {e : Doc Loaded} {todo done : List (Doc Loaded)}
    (h : Replays x since (e :: todo) done) : Replays x since todo done :=
  { h with todo := fun d hd => h.todo d (List.mem_cons_of_mem _ hd) }

theorem Good.compact (h : Good trunc x) {done : List (Doc Loaded)} (hdone : Done x done)
    {log : List Char} (hlog : walCompact repr done x.log = some log) :
    Good trunc { x with log := log } ∧ Grows x { x with log := log } :=
  ⟨⟨h.books, h.logged.compact hdone hlog, h.named⟩, List.Subset.refl _, .refl⟩

theorem Good.own (h : Good trunc x) (hl : Local x pc) (hm : Moves trunc x pc y pc') :
    Good trunc y ∧ Local y pc' ∧ Grows x y := by
  cases hm with
  | @finish f hfresh =>
    simp only [Shared.fresh, Bool.and_eq_true, Bool.not_eq_true', List.all_eq_true,
      decide_eq_true_eq] at hfresh
    obtain ⟨⟨hname, hknown⟩, hnew⟩ := hfresh
    refine ⟨⟨h.books.finish hknown hnew, h.logged.append f, ?_⟩,
      List.mem_append_right _ List.mem_cons_self, List.subset_append_left _ _, .refl⟩
    intro g hg
    rcases List.mem_append.mp hg with hg | hg
    · exact h.named g hg
    · rw [List.mem_singleton.mp hg]
      rintro heq
      rw [heq] at hname
      exact absurd hname (by decide)
  | replay =>
    obtain ⟨hdocs, hcovers⟩ := h.logged.entries
    refine ⟨h, ⟨⟨List.Subset.refl _, hdocs, fun d hd => by cases hd⟩, fun _ f hf => ?_⟩, .refl⟩
    exact (hcovers f hf).imp_right .inl
  | store hy =>
    obtain ⟨hgood, hgrows⟩ := h.store hy
    exact ⟨hgood, trivial, hgrows⟩
  | call hy =>
    obtain ⟨hgood, hgrows, -, hserves⟩ := h.call hl hy
    exact ⟨hgood, ⟨hgrows.finishes hl, hserves⟩, hgrows⟩
  | answered hpc =>
    have hserves := hl.2
    rw [hpc] at hserves
    exact ⟨h, ⟨hl.1, hserves⟩, .refl⟩
  | returns | breaks | dies => exact ⟨h, trivial, .refl⟩
  | @compacts f state log r hlog =>
    have hdone : Done x [.str (key f.op)] := by
      intro d hd
      exact ⟨f, hl.1, List.mem_singleton.mp hd, hl.2⟩
    obtain ⟨hgood, hgrows⟩ := h.compact hdone hlog
    exact ⟨hgood, trivial, hgrows⟩
  | @asks since members todo done failed c q _ hid hq hy =>
    obtain ⟨hreplays, hcovers⟩ := hl
    obtain ⟨f, hf, heq⟩ := hreplays.todo _ List.mem_cons_self
    obtain rfl : members = f.record.members := Doc.obj.inj heq
    rw [request_record, Option.some.injEq] at hq
    subst hq
    obtain ⟨hgood, hgrows, -, hserves⟩ := h.call hf hy
    refine ⟨hgood, ⟨hreplays.tail.mono hgrows, f, hgrows.finishes hf, ?_, hserves,
      fun hzero => (hcovers hzero).take.mono hgrows⟩, hgrows⟩
    rw [Outbox.get_opId, opId_record]
  | misses => exact ⟨h, ⟨hl.1.tail, fun hzero => by cases hzero⟩, .refl⟩
  | @skips since members todo done failed hid =>
    -- an op id is not empty
    obtain ⟨f, hf, heq⟩ := hl.1.todo _ List.mem_cons_self
    obtain rfl : members = f.record.members := Doc.obj.inj heq
    rw [Outbox.get_opId, opId_record, truthy_key (h.named f hf)] at hid
    cases hid
  | @asked since opId c todo done failed state hpc =>
    obtain ⟨hreplays, f, hf, rfl, hserves, hcovers⟩ := hl
    rw [hpc] at hserves
    have hdone : Done x (.str (key f.op) :: done) := by
      intro d hd
      rcases List.mem_cons.mp hd with rfl | hd
      · exact ⟨f, hf, rfl, hserves⟩
      · exact hreplays.done d hd
    exact ⟨h, ⟨{ hreplays with done := hdone }, fun hzero => (hcovers hzero).put hserves⟩, .refl⟩
  | fails => exact ⟨h, ⟨hl.1, fun hzero => by cases hzero⟩, .refl⟩
  | replayed => exact ⟨h, ⟨hl.1.since, fun hzero => (hl.2 hzero).all⟩, .refl⟩
  | trims => exact ⟨h, ⟨⟨hl.1.since, hl.1.todo, hl.1.done⟩, hl.2⟩, .refl⟩
  | trimmed hlog =>
    obtain ⟨hgood, hgrows⟩ := h.compact hl.1.done hlog
    exact ⟨hgood, ⟨hl.1.since, fun hzero => (hl.2 hzero).all⟩, hgrows⟩

/-! ## Runs -/

theorem holds_of_reachable {s : Sys repr}
    (h : Runs.Reachable (next trunc) Appends (Sys.init repr) s) :
    Interleaving.Holds (Good trunc) (fun _ => Local) s := by
  have hinit : Interleaving.Holds (Good trunc) (fun _ => Local) (Sys.init repr) := by
    refine ⟨⟨books_init, ⟨[], rfl, List.Subset.refl _, fun f hf => ?_⟩, fun f hf => ?_⟩,
      fun _ => trivial⟩
    · cases hf
    · cases hf
  refine Interleaving.threadwise (R := fun _ => Grows) hinit ?_ ?_ h
  · intro s t choice y k _ hI hok ha
    exact hI.global.own (hI.thread t) (moves_of_advance hok ha)
  · intro t u x y k hgrows _ hl
    exact hl.mono hgrows

/-- Where every append to the log returns, settlements are exactly once. -/
theorem settledOnce_of_reachable (trunc : Window → PlatformLib.Time → PlatformLib.Time)
    {s : Sys repr} (h : Runs.Reachable (next trunc) Appends (Sys.init repr) s) :
    SettledOnce s := by
  have hI := holds_of_reachable h
  refine ⟨fun t ht => ?_, fun f hf l hl => hI.global.books.charged hf hl, ?_⟩
  · have hlocal := hI.thread t
    rw [ht] at hlocal
    exact hlocal
  · intro t since ht f hf q hq
    have hlocal := hI.thread t
    rw [ht] at hlocal
    exact hI.global.books.settled (hlocal.1 hf) (hlocal.2 rfl f hf) hq

/-! ## Two runs -/

def halfSecond : Seconds Outbox.halfRepr := ⟨1 / 2, by norm_num, Outbox.half_back⟩

def settling : Finish Outbox.halfRepr := .settle "op" halfSecond Outbox.half

/-- The store's steps for a reserve that is granted. -/
def reserved : List (ℕ × Choice Outbox.halfRepr) :=
  (PlatformLib.Store.reserving 0 (PlatformLib.Store.job "op" 5 none)).map
    fun a => (0, .store a.1 a.2)

/-- The append raises: the caller of `settle` gets the exception. -/
theorem appendRaises_not_settledOnce : ∃ s, Runs.Reachable (next PlatformLib.Store.midnight)
    Runs.anyStep (Sys.init Outbox.halfRepr) s ∧ s.pc 1 = .raised ∧ ¬ SettledOnce s := by
  have hrun : (Runs.run (next PlatformLib.Store.midnight) Runs.anyStep
      (Sys.init Outbox.halfRepr) (reserved ++ [(1, .cut settling 0 false)])).map
      (fun s => match s.pc 1 with | .raised => true | _ => false) = some true := by
    decide +kernel
  obtain ⟨s, hs, hp⟩ := Runs.exists_reachable hrun
  have hraised : s.pc 1 = .raised := by
    split at hp
    · rename_i heq
      exact heq
    · cases hp
  exact ⟨s, hs, hraised, fun h => h.returns 1 hraised⟩

/-- The store fails, and a replay settles: its call takes four statements behind the first. -/
def replayedLater : List (ℕ × Choice Outbox.halfRepr) :=
  reserved ++ [(1, .finish settling), (1, .go 1), (0, .store 1 .fails), (1, .go 0), (2, .replay),
    (2, .go 2), (0, .store 2 .go), (0, .store 2 .go), (0, .store 2 .go), (0, .store 2 .go),
    (2, .go 0), (2, .go 0), (2, .go 0)]

theorem replayedLater_settledOnce : ∃ s, Runs.Reachable (next PlatformLib.Store.midnight)
    Appends (Sys.init Outbox.halfRepr) s ∧ (∃ since, s.pc 2 = .replayed since 0) ∧
      SettledOnce s := by
  have hrun : (Runs.run (next PlatformLib.Store.midnight) Appends (Sys.init Outbox.halfRepr)
      replayedLater).map (fun s => match s.pc 2 with | .replayed _ 0 => true | _ => false) =
      some true := by
    decide +kernel
  obtain ⟨s, hs, hp⟩ := Runs.exists_reachable hrun
  have hreplayed : ∃ since, s.pc 2 = .replayed since 0 := by
    split at hp
    · rename_i since heq
      exact ⟨since, heq⟩
    · cases hp
  exact ⟨s, hs, hreplayed, settledOnce_of_reachable _ hs⟩

end MlopsLite.Gateway.Settlement
