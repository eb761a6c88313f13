import MlopsLite.Lib.Parked
import MlopsLite.PlatformLib.BrokerJobs.Order

/-!
# Broker jobs — pausing and resuming

`job_override` (`hostagent/gpuroutes.py`) pauses a job by moving it to the end
of the lane and resumes it by moving it to the head. A position is all that is
stored, so a paused job comes to the head as the jobs before it leave, and a
resumed one passes whatever arrived before it. A `Book` beside the lane has what
the positions do not say: the order of arrival, and which jobs are paused.
-/

namespace MlopsLite.PlatformLib

/-- The job that an operation is about. -/
def LaneOp.id : LaneOp → JobId
  | .append id | .remove id | .move id _ => id

/-- The action of an override that is to count the queued jobs. -/
def LanePc.action : LanePc → Option String
  | .overrideLength _ action => some action
  | _ => none

theorem LanePc.action_eq_some {pc : LanePc} {action : String} (h : pc.action = some action) :
    ∃ id, pc = .overrideLength id action := by
  cases pc <;> cases h
  exact ⟨_, rfl⟩

namespace Lane

open Parked (Before others Waits note park IsParked AllWait Tracked)

/-! ## The book -/

/-- The jobs in the order of their arrival, the pause or resume that a call is
at, and the paused jobs. -/
structure Book where
  arrivals : List JobId
  actions : CallId → Option String
  waits : Waits JobId

/-- What a step of call `t` adds: an operation counts when it commits. -/
def Book.record (t : CallId) (_ : Lane) (pc : LanePc) (b : Book) (x' : Lane) (pc' : LanePc) :
    Book where
  arrivals := match laneOp pc pc' with
    | some (.append id) => b.arrivals ++ [id]
    | _ => b.arrivals
  actions := match pc.action with
    | some action => Function.update b.actions t (some action)
    | none => b.actions
  waits := match laneOp pc pc' with
    | none => b.waits
    | some (.move id _) =>
        if b.actions t = some "pause" then park x'.order id b.waits else note x'.order id b.waits
    | some op => note x'.order op.id b.waits

abbrev BookedSys := Interleaving.State CallId (Lane × Book) LanePc

abbrev bookedNext : BookedSys → Act → Option BookedSys :=
  Interleaving.next (Interleaving.withHistory advance Book.record)

def BookedSys.init : BookedSys := ⟨(Lane.init, ⟨[], fun _ => none, []⟩), fun _ => .idle⟩

namespace BookedSys

def order (s : BookedSys) : List JobId := s.shared.1.order

def book (s : BookedSys) : Book := s.shared.2

/-- The job is paused. -/
def Paused (s : BookedSys) (id : JobId) : Prop := IsParked s.book.waits id

instance (s : BookedSys) (id : JobId) : Decidable (s.Paused id) :=
  inferInstanceAs (Decidable (IsParked s.book.waits id))

/-- Before and behind it are, of the jobs that are not paused, those that
arrived before and after it. -/
def InPlace (s : BookedSys) (id : JobId) : Prop :=
  ∀ k ∈ s.order, k ≠ id → ¬ s.Paused k → (Before s.order id k ↔ Before s.book.arrivals id k)

instance (s : BookedSys) (id : JobId) : Decidable (s.InPlace id) := by
  unfold InPlace
  infer_instance

end BookedSys

/-! ## What is promised, and when -/

/-- A step of call `t` starts no paused job, returns a resumed one to its place
and leaves the other jobs in their order. -/
structure KeepsLane (s s' : BookedSys) (t : CallId) : Prop where
  started : ∀ id, s.pc t = .start id → s'.pc t = .returned → ¬ s.Paused id
  resumed : ∀ id position, laneOp (s.pc t) (s'.pc t) = some (.move id position) →
    s.book.actions t = some "resume" → s.Paused id → s'.InPlace id
  others : ∀ id position, laneOp (s.pc t) (s'.pc t) = some (.move id position) →
    s.book.actions t ≠ none → others id s'.order = others id s.order

/-- Jobs are started from the head of the lane; a renumbering meets the lane it
has read, and a pause no more jobs than it has counted. -/
def Orderly (s : BookedSys) (a : Act) : Prop :=
  Undisturbed s.forget a ∧
    match s.pc a.1, a.2 with
    | .start id, .now _ => s.order.head? = some id
    | .commit _ (.reorder _ position queued), .go =>
        s.book.actions a.1 = some "pause" → (queued.length : ℤ) ≤ position
    | _, _ => True

def orderly (s : BookedSys) (a : Act) : Bool :=
  decide (Undisturbed s.forget a) &&
    match s.pc a.1, a.2 with
    | .start id, .now _ => decide (s.order.head? = some id)
    | .commit _ (.reorder _ position queued), .go =>
        decide (s.book.actions a.1 = some "pause" → (queued.length : ℤ) ≤ position)
    | _, _ => true

theorem orderly_iff (s : BookedSys) (a : Act) : orderly s a = true ↔ Orderly s a := by
  rw [orderly, Orderly, Bool.and_eq_true, decide_eq_true_iff]
  refine and_congr Iff.rfl ?_
  split <;> simp only [decide_eq_true_iff]

instance (s : BookedSys) (a : Act) : Decidable (Orderly s a) :=
  decidable_of_iff _ (orderly_iff s a)

/-- When a job is started, every paused one still waits behind another; when a
paused job is resumed, no job that is not paused has arrived before it. -/
structure Clear (s s' : BookedSys) (t : CallId) : Prop where
  started : ∀ id, s.pc t = .start id → s'.pc t = .returned → AllWait s.order s.book.waits
  resumed : ∀ id position, laneOp (s.pc t) (s'.pc t) = some (.move id position) →
    s.book.actions t = some "resume" → s.Paused id →
      ∀ k ∈ s.order, k ≠ id → ¬ s.Paused k → Before s.book.arrivals id k

section

variable {l : List JobId} {op : LaneOp} {id : JobId} {position : ℤ}

/-! ## Operations on the list -/

theorem others_erase : others id (l.erase id) = others id l := by
  induction l with
  | nil => rfl
  | cons k l ih =>
    by_cases hk : k = id
    · simp [others, hk]
    · rw [List.erase_cons_tail (by simpa using hk)]
      simpa [others, hk] using ih

theorem others_insertIdx (n : ℕ) : others id (l.insertIdx n id) = others id l := by
  induction l generalizing n with
  | nil => cases n <;> simp [others]
  | cons k l ih =>
    cases n with
    | zero => simp [others]
    | succ n =>
      have hrest := ih n
      simp only [others] at hrest ⊢
      simp only [List.insertIdx_succ_cons, List.filter_cons, hrest]

/-- An operation leaves the other jobs in their order. -/
theorem others_apply : others op.id (op.apply l) = others op.id l := by
  cases op with
  | append id => simp [LaneOp.apply, LaneOp.id, others]
  | remove id => exact others_erase
  | move id position =>
    show others id (moveTo id position l) = others id l
    rw [moveTo, others_insertIdx, others_erase]

theorem moveTo_head : moveTo id 1 l = id :: l.erase id := by
  simp [moveTo]

/-- A position past the end is the end. -/
theorem moveTo_last (hnodup : l.Nodup) (hmem : id ∈ l) (hposition : (l.length : ℤ) ≤ position) :
    moveTo id position l = others id l ++ [id] := by
  have hothers : l.erase id = others id l := by
    rw [hnodup.erase_eq_filter]
    exact List.filter_congr fun k _ => by by_cases h : k = id <;> simp [h]
  have hlength := List.length_erase_of_mem hmem
  have hpos := List.length_pos_of_mem hmem
  have hindex : (max 0 (min ((l.erase id).length : ℤ) (position - 1))).toNat =
      (l.erase id).length := by omega
  rw [moveTo, hindex, List.insertIdx_length_self, hothers]

end

section

variable {s s' : BookedSys} {a : Act} {t : CallId} {id : JobId} {position : ℤ}

/-! ## Steps -/

theorem laneOp_move {pc pc' : LanePc} (h : laneOp pc pc' = some (.move id position)) :
    ∃ via queued, pc = .commit via (.reorder id position queued) ∧ pc' = via.returns := by
  unfold laneOp at h
  split at h
  all_goals try cases h
  · split_ifs at h with hpc
    cases h
    exact ⟨_, _, rfl, hpc⟩
  · split_ifs at h
    cases h

theorem book_step (hn : bookedNext s a = some s') :
    next s.forget a = some s'.forget ∧
      s'.book = Book.record a.1 s.shared.1 (s.pc a.1) s.book s'.shared.1 (s'.pc a.1) := by
  obtain ⟨t, ch⟩ := a
  obtain ⟨⟨x, b⟩, k, ha, rfl⟩ := Interleaving.next_eq_some.mp hn
  obtain ⟨hadv, rfl⟩ := Interleaving.withHistory_eq_some.mp ha
  refine ⟨Interleaving.next_eq_some.mpr ⟨x, k, hadv, rfl⟩, ?_⟩
  simp only [Function.update_self]
  rfl

theorem reachable_booked (h : Runs.Reachable bookedNext Orderly BookedSys.init s) :
    Runs.Reachable next Undisturbed Sys.init s.forget :=
  Interleaving.forget_reachable_of (fun _ _ hok => hok.1) h

/-- What a step does to the lane. -/
theorem booked_effect (h : Runs.Reachable bookedNext Orderly BookedSys.init s) (hok : Orderly s a)
    (hn : bookedNext s a = some s') :
    Effect a.1 s.shared.1 s'.shared.1 (laneOp (s.pc a.1) (s'.pc a.1)) :=
  (lined_of_reachable (reachable_booked h)).effect (reachable_booked h) hok.1 (book_step hn).1

theorem nodup_order (h : Runs.Reachable bookedNext Orderly BookedSys.init s) : s.order.Nodup :=
  (isRanked_order (lined_of_reachable (reachable_booked h)).sorted).nodup

theorem order_booked (h : Runs.Reachable bookedNext Orderly BookedSys.init s) (hok : Orderly s a)
    (hn : bookedNext s a = some s') :
    s'.order = (laneOp (s.pc a.1) (s'.pc a.1)).elim s.order fun op => op.apply s.order :=
  ((booked_effect h hok hn).order (lined_of_reachable (reachable_booked h)).sorted).2

theorem Effect.mem_of_move {x x' : Lane} (h : Effect t x x' (some (.move id position))) :
    id ∈ x.order := by
  cases h with
  | move _ _ hmem => exact hmem

end

section

variable {s s' : BookedSys} {a : Act} {t : CallId} {x x' : Lane} {pc pc' : LanePc} {ch : LaneChoice}
  {id : JobId} {position : ℤ}

/-! ## Where a resume moves its job -/

/-- The job is moved to the head. -/
def ToHead : Mover → Prop
  | .reorder _ position _ => position = 1
  | .compact .. => False

/-- Where a resume stands that has read the lane. -/
def AtHead : LanePc → Prop
  | .reorderRead _ _ position | .reorderList _ _ position => position = 1
  | .placing _ m _ | .shift _ m | .lowering _ m _ | .commit _ m => ToHead m
  | .returned | .answered _ | .raised _ => True
  | _ => False

theorem atHead_returns (via : Caller) : AtHead via.returns := by
  cases via <;> trivial

theorem atHead_raises (via : Caller) (e : LaneError) : AtHead (via.raises e) := by
  cases via <;> cases e <;> trivial

theorem atHead_thenAt {p : Put} {k : LanePc} (hk : AtHead k)
    (h : p.thenAt x t k = some (x', pc')) : AtHead pc' := by
  rcases of_thenAt h with ⟨-, rfl⟩ | ⟨-, rfl⟩
  · exact hk
  · trivial

theorem atHead_step (h : AtHead pc) (hadv : advance t ch x pc = some (x', pc')) : AtHead pc' := by
  cases ch with
  | fails =>
    have hraised : pc' = .raised .database := by
      cases pc <;> simp_all [advance, LanePc.over]
    rw [hraised]
    trivial
  | call c =>
    cases pc with
    | idle => exact h.elim
    | _ => cases hadv
  | now at' =>
    cases pc with
    | start id => exact h.elim
    | _ => cases hadv
  | scan ids =>
    cases pc with
    | shift via m =>
      simp only [advance] at hadv
      split at hadv
      · cases hadv
        exact h
      · cases hadv
    | compact | recoverUpdate => exact h.elim
    | _ => cases hadv
  | go =>
    cases pc with
    | reorderRead via id position =>
      cases hadv
      unfold reorderRead
      split
      · exact atHead_raises ..
      · split
        · exact h
        · exact atHead_raises ..
    | reorderList via id position =>
      simp only [advance, reorderList, Option.some.injEq, Prod.mk.injEq] at hadv
      obtain ⟨-, rfl⟩ := hadv
      split
      · exact h
      · exact atHead_raises ..
    | placing via m todo =>
      cases todo with
      | nil =>
        cases hadv
        exact h
      | cons id todo => exact atHead_thenAt (k := .placing via m todo) h hadv
    | lowering via m todo =>
      cases todo with
      | nil =>
        cases hadv
        exact h
      | cons id todo => exact atHead_thenAt (k := .lowering via m todo) h hadv
    | commit via m =>
      cases hadv
      exact atHead_returns via
    | idle | start | compact | shift | recoverUpdate | returned | recovered | answered | raised =>
      cases hadv
    | _ => exact h.elim

/-! ## Runs -/

/-- The paused jobs are behind those they wait behind. -/
structure Booked (s : BookedSys) : Prop where
  tracked : Tracked s.order s.book.waits
  atHead : ∀ t, s.book.actions t = some "resume" → AtHead (s.pc t)

/-- What is known where a job is moved. -/
theorem move_step (h : Runs.Reachable bookedNext Orderly BookedSys.init s) (hok : Orderly s a)
    (hn : bookedNext s a = some s')
    (hmove : laneOp (s.pc a.1) (s'.pc a.1) = some (.move id position)) :
    id ∈ s.order ∧ s'.order = moveTo id position s.order ∧
      (s.book.actions a.1 = some "pause" → s'.order = others id s.order ++ [id]) ∧
        ∃ via queued, s.pc a.1 = .commit via (.reorder id position queued) := by
  have hmem : id ∈ s.order := by
    have heffect := booked_effect h hok hn
    rw [hmove] at heffect
    exact heffect.mem_of_move
  have horder : s'.order = moveTo id position s.order := by
    rw [order_booked h hok hn, hmove]
    rfl
  obtain ⟨via, queued, hpc, hpc'⟩ := laneOp_move hmove
  refine ⟨hmem, horder, fun hpause => ?_, via, queued, hpc⟩
  have hforget := (book_step hn).1
  have hqueued : s.order = queued := undisturbed_commit hok.1 hforget hpc hpc'
  have hgo : a.2 = .go := go_of_returns hforget hpc hpc'
  have hposition := hok.2
  rw [hpc, hgo] at hposition
  rw [horder]
  exact moveTo_last (nodup_order h) hmem (hqueued ▸ hposition hpause)

theorem tracked_step (h : Runs.Reachable bookedNext Orderly BookedSys.init s)
    (hI : Tracked s.order s.book.waits) (hok : Orderly s a) (hn : bookedNext s a = some s') :
    Tracked s'.order s'.book.waits := by
  have horder := order_booked h hok hn
  have hnodup : s'.order.Nodup := nodup_order (h.step a hok hn)
  have hbook := (book_step hn).2
  have hwaits : s'.book.waits = _ := congrArg Book.waits hbook
  rw [hwaits]
  simp only [Book.record]
  cases hop : laneOp (s.pc a.1) (s'.pc a.1) with
  | none =>
    rw [hop] at horder
    rw [show s'.order = s.order from horder]
    exact hI
  | some op =>
    rw [hop] at horder
    have hothers : others op.id s'.order = others op.id s.order := by
      rw [show s'.order = op.apply s.order from horder, others_apply]
    cases op with
    | append id | remove id => exact hI.note hothers
    | move id position =>
      dsimp only
      split_ifs with hpause
      · exact hI.park ((move_step h hok hn hop).2.2.1 hpause) hnodup
      · exact hI.note hothers

/-- A resume is to move its job to position 1 when it has read the lane. -/
theorem atHead_length {action : String} (haction : action = "resume")
    (hadv : advance t ch x (.overrideLength id action) = some (x', pc')) : AtHead pc' := by
  subst haction
  cases ch with
  | go =>
    cases hadv
    rfl
  | fails =>
    cases hadv
    trivial
  | _ => cases hadv

theorem atHead_next (hn : bookedNext s a = some s')
    (hI : ∀ t, s.book.actions t = some "resume" → AtHead (s.pc t)) (u : CallId)
    (hu : s'.book.actions u = some "resume") : AtHead (s'.pc u) := by
  obtain ⟨t, ch⟩ := a
  obtain ⟨hforget, hbook⟩ := book_step hn
  obtain ⟨x, k, hadv, heq⟩ := Interleaving.next_eq_some.mp hforget
  have hactions : s'.book.actions = _ := congrArg Book.actions hbook
  have hpc : s'.pc = Function.update s.pc t k := congrArg Interleaving.State.pc heq
  rw [hactions] at hu
  simp only [Book.record] at hu
  rw [hpc]
  by_cases hut : u = t
  · subst hut
    rw [Function.update_self]
    cases haction : (s.pc u).action with
    | none =>
      rw [haction] at hu
      exact atHead_step (hI u hu) hadv
    | some action =>
      rw [haction] at hu
      obtain ⟨id, hlength⟩ := LanePc.action_eq_some haction
      have haction : action = "resume" := by simpa using hu
      exact atHead_length haction (hlength ▸ hadv)
  · rw [Function.update_of_ne hut]
    apply hI
    cases haction : (s.pc t).action with
    | none =>
      rw [haction] at hu
      exact hu
    | some action =>
      rw [haction] at hu
      simpa [Function.update_of_ne hut] using hu

theorem booked_of_reachable (h : Runs.Reachable bookedNext Orderly BookedSys.init s) :
    Booked s := by
  refine h.invariant (I := Booked) ⟨fun w hw => (by cases hw), fun t ht => (by cases ht)⟩ ?_
  intro s a s' hr hI hok hn
  exact ⟨tracked_step hr hI.tracked hok hn, atHead_next hn hI.atHead⟩

/-! ## The promise -/

theorem head_of_start (hok : Orderly s a) (hn : bookedNext s a = some s')
    (hpc : s.pc a.1 = .start id) (hpc' : s'.pc a.1 = .returned) : s.order.head? = some id := by
  obtain ⟨t, ch⟩ := a
  obtain ⟨x, k, hadv, heq⟩ := Interleaving.next_eq_some.mp (book_step hn).1
  have hk : k = .returned := by
    have hpcs : s'.pc = Function.update s.pc t k := congrArg Interleaving.State.pc heq
    rw [hpcs, Function.update_self] at hpc'
    exact hpc'
  have hstart : advance t ch s.forget.shared (.start id) = some (x, k) := hpc ▸ hadv
  have hhead := hok.2
  rw [hpc] at hhead
  cases ch with
  | now at' => exact hhead
  | fails =>
    cases hstart
    cases hk
  | _ => cases hstart

theorem started_iff (h : Runs.Reachable bookedNext Orderly BookedSys.init s) (hok : Orderly s a)
    (hn : bookedNext s a = some s') (hpc : s.pc a.1 = .start id) (hpc' : s'.pc a.1 = .returned) :
    ¬ s.Paused id ↔ AllWait s.order s.book.waits := by
  obtain ⟨rest, horder⟩ := List.head?_eq_some_iff.mp (head_of_start hok hn hpc hpc')
  have hnodup := nodup_order h
  have htracked := (booked_of_reachable h).tracked
  rw [horder] at hnodup htracked ⊢
  rw [BookedSys.Paused, Parked.isParked_head_iff htracked hnodup, not_not]

theorem inPlace_iff (h : Runs.Reachable bookedNext Orderly BookedSys.init s) (hok : Orderly s a)
    (hn : bookedNext s a = some s')
    (hmove : laneOp (s.pc a.1) (s'.pc a.1) = some (.move id position))
    (hresume : s.book.actions a.1 = some "resume") :
    s'.InPlace id ↔ ∀ k ∈ s.order, k ≠ id → ¬ s.Paused k → Before s.book.arrivals id k := by
  obtain ⟨hmem, horder, -, via, queued, hpc⟩ := move_step h hok hn hmove
  have hposition : position = 1 := by
    have hhead := (booked_of_reachable h).atHead a.1 hresume
    rw [hpc] at hhead
    exact hhead
  have hbook := (book_step hn).2
  have harrivals : s'.book.arrivals = s.book.arrivals := by
    rw [hbook]
    simp only [Book.record, hmove]
  have hwaits : s'.book.waits = note s'.order id s.book.waits := by
    rw [hbook]
    simp only [Book.record, hmove]
    exact if_neg (by rw [hresume]; decide)
  have hpaused : ∀ k, s'.Paused k ↔ s.Paused k ∧ k ≠ id := by
    intro k
    rw [BookedSys.Paused, hwaits, Parked.isParked_note]
    rfl
  have hhead : s'.order = id :: s.order.erase id := by rw [horder, hposition, moveTo_head]
  have hrest : ∀ k, k ≠ id → (k ∈ s.order.erase id ↔ k ∈ s.order) := fun k hk =>
    List.mem_erase_of_ne hk
  constructor
  · intro h' k hk hne hnot
    have hplace := h' k (by simp [hhead, hrest k hne, hk]) hne fun hp => hnot ((hpaused k).mp hp).1
    rw [← harrivals]
    refine hplace.mp ?_
    rw [hhead, Parked.before_head]
    exact (hrest k hne).mpr hk
  · intro h' k hk hne hnot
    have hmem' : k ∈ s.order := by
      rw [hhead] at hk
      exact (hrest k hne).mp (by simpa [hne] using hk)
    rw [harrivals, hhead, Parked.before_head]
    exact iff_of_true ((hrest k hne).mpr hmem')
      (h' k hmem' hne fun hp => hnot ((hpaused k).mpr ⟨hp, hne⟩))

theorem keepsLane_iff (s : BookedSys) (h : Runs.Reachable bookedNext Orderly BookedSys.init s)
    (a : Act) (s' : BookedSys) (hok : Orderly s a) (hn : bookedNext s a = some s') :
    KeepsLane s s' a.1 ↔ Clear s s' a.1 := by
  constructor
  · intro hkeeps
    constructor
    · intro id hpc hpc'
      exact (started_iff h hok hn hpc hpc').mp (hkeeps.started id hpc hpc')
    · intro id position hmove hresume hpaused
      exact (inPlace_iff h hok hn hmove hresume).mp
        (hkeeps.resumed id position hmove hresume hpaused)
  · intro hclear
    refine ⟨?_, ?_, ?_⟩
    · intro id hpc hpc'
      exact (started_iff h hok hn hpc hpc').mpr (hclear.started id hpc hpc')
    · intro id position hmove hresume hpaused
      exact (inPlace_iff h hok hn hmove hresume).mpr
        (hclear.resumed id position hmove hresume hpaused)
    · intro id position hmove _
      rw [(move_step h hok hn hmove).2.1]
      exact @others_apply s.order (.move id position)

/-- Call `t` pauses or resumes a job, up to its commit. -/
def overriding (t : CallId) (id : JobId) (action : String) (lane : List JobId) : List Act :=
  ([(t, .call (.override id action none)), (t, .go), (t, .go), (t, .go), (t, .go)] : List Act) ++
    (List.replicate (lane.length + 1) (t, .go) : List Act) ++ ([(t, .scan lane)] : List Act) ++
      (List.replicate (lane.length + 1) (t, .go) : List Act)

/-- The first of two jobs is paused, and the other one is about to be started. -/
def pausedFirst : List Act :=
  enqueueing 0 "a" ++ enqueueing 1 "b" ++ overriding 2 "a" "pause" ["a", "b"] ++
    ([(2, .go), (3, .call (.start "b"))] : List Act)

theorem pausedFirst_waits : ∃ s s' : BookedSys, s.Paused "a" ∧ s.order = ["b", "a"] ∧
    s'.order = ["a"] ∧ KeepsLane s s' 3 := by
  have hrun : ((Runs.run bookedNext Orderly BookedSys.init pausedFirst).bind fun s =>
      (bookedNext s (3, .now 5)).map fun s' => decide (Orderly s (3, .now 5) ∧ s.Paused "a" ∧
        s.order = ["b", "a"] ∧ s'.order = ["a"] ∧ AllWait s.order s.book.waits ∧
          laneOp (s.pc 3) (s'.pc 3) = some (.remove "b"))) = some true := by decide +kernel
  obtain ⟨s, s', hs, hn, hp⟩ := Runs.exists_step hrun
  obtain ⟨hok, hpaused, horder, horder', hwait, hremove⟩ := of_decide_eq_true hp
  refine ⟨s, s', hpaused, horder, horder', ?_⟩
  refine (keepsLane_iff s hs (3, .now 5) s' hok hn).mpr ⟨fun _ _ _ => hwait, ?_⟩
  intro id position hmove
  cases hremove.symm.trans hmove

/-- Of two jobs the later one is paused and resumed. -/
def pausedThenResumed : List Act :=
  enqueueing 0 "a" ++ enqueueing 1 "b" ++ overriding 2 "b" "pause" ["a", "b"] ++
    ([(2, .go)] : List Act) ++
    overriding 3 "b" "resume" ["a", "b"]

/-- It passes the earlier one. -/
theorem pausedThenResumed_overtakes :
    ¬ ∀ s a s', Runs.Reachable bookedNext Orderly BookedSys.init s → Orderly s a →
      bookedNext s a = some s' → KeepsLane s s' a.1 := by
  have hrun : ((Runs.run bookedNext Orderly BookedSys.init pausedThenResumed).bind fun s =>
      (bookedNext s (3, .go)).map fun s' => decide (Orderly s (3, .go) ∧
        laneOp (s.pc 3) (s'.pc 3) = some (.move "b" 1) ∧ s.book.actions 3 = some "resume" ∧
          s.Paused "b" ∧ ¬ s'.InPlace "b")) = some true := by decide +kernel
  obtain ⟨s, s', hs, hn, hp⟩ := Runs.exists_step hrun
  obtain ⟨hok, hmove, hresume, hpaused, hnot⟩ := of_decide_eq_true hp
  intro hall
  exact hnot ((hall s (3, .go) s' hs hok hn).resumed "b" 1 hmove hresume hpaused)

end

end Lane

end MlopsLite.PlatformLib
