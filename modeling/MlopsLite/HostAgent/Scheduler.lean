import MlopsLite.Lib.Interleaving

/-!
# Scheduler — the bound on waiting

`Scheduler` (`hostagent/scheduler.py`) with the owner's overrides of the lane
(`job_override`, `hostagent/gpuroutes.py`). The scheduler's lock is held for a
section at a time: an admission is checked, put to the coordinator and counted
in three, a job gets the GPU and is noted in two, and so it ends. Of the
coordinator the model keeps the exclusive job; whether it admits is open.
-/

namespace MlopsLite.HostAgent.Scheduler

abbrev ThreadId := ℕ

abbrev JobId := String

abbrev Time := ℚ

structure Config where
  inferenceBurst : ℤ
  headJobWait : Time

/-- The persisted lane, the scheduler's own state, and the exclusive job of the
coordinator. The rest is history: the inference admissions granted while the
job at the head has waited, whether drain mode has begun for it, the threads
that are checked and not answered, granted and not counted, or at the end of a
job, and the jobs that have the GPU and are not noted. -/
structure Shared where
  lane : List JobId
  queuedIds : List JobId
  since : Option Time
  count : ℕ
  drainMode : Bool
  exclusive : Option JobId
  granted : ℕ
  begun : Bool
  checking : List ThreadId
  counting : List ThreadId
  ending : List ThreadId
  starting : List (ThreadId × JobId)

inductive Override
  | pin
  | reorder (position : Option ℤ)
  | cancel
  | pause
  | resume
  deriving DecidableEq

inductive Pc
  | idle
  | checked
  | granted
  | starting (id : JobId)
  | ending
  deriving DecidableEq

/-- `enqueue` is `note_job_queued` of a job put in the lane, with its id or
without; `answer` and `acquire` have what the coordinator says. -/
inductive Choice
  | admitServing (now : Time)
  | answer (ok : Bool)
  | go
  | drainMode (now : Time)
  | enqueue (id : JobId) (named : Bool) (now : Time)
  | admitHeadJob (id : JobId) (acquired : Bool)
  | note (now : Time)
  | endJob (id : Option JobId)
  | reset (now : Time)
  | override (id : JobId) (action : Override)

namespace Shared

variable (x : Shared)

/-- Another lane; with another head the history starts anew. -/
def withLane (lane : List JobId) : Shared :=
  if lane.head? = x.lane.head? then { x with lane := lane }
  else { x with lane := lane, granted := 0, begun := false }

/-- `_compute_drain_mode`. -/
def drains (cfg : Config) (now : Time) : Bool :=
  match x.since with
  | none => false
  | some since =>
      x.drainMode || decide (cfg.inferenceBurst ≤ x.count) ||
        decide (cfg.headJobWait ≤ now - since)

def compute (cfg : Config) (now : Time) : Shared :=
  { x with
    drainMode := x.drains cfg now
    begun := x.begun || (x.drains cfg now && !x.lane.isEmpty) }

/-- The second section of `admit_serving`. -/
def countAdmission : Shared :=
  { x with count := if x.since.isSome then x.count + 1 else x.count }

/-- The grants while this head waits, with one more. -/
def grantedNow : ℕ := if x.lane.isEmpty then x.granted else x.granted + 1

def noteJobQueued (id : Option JobId) (now : Time) : Shared :=
  { x with
    queuedIds := match id with
      | none => x.queuedIds
      | some id => if id ∈ x.queuedIds then x.queuedIds else x.queuedIds ++ [id]
    since := x.since.or (some now)
    count := if x.since.isNone then 0 else x.count }

/-- The wait clock starts anew if the mirror still has jobs. -/
def restart (now : Time) : Shared :=
  { x with
    since := if x.queuedIds.isEmpty then none else some now
    count := 0
    drainMode := false }

def noteJobStarted (id : JobId) (now : Time) : Shared :=
  { x with queuedIds := x.queuedIds.erase id }.restart now

/-- `Coordinator.end_job`. -/
def endExclusive (id : Option JobId) : Shared :=
  if id.isNone ∨ x.exclusive = id then { x with exclusive := none } else x

/-- `reorder_broker_job` of a job in the lane: positions from 1. -/
def reorder (id : JobId) (position : ℤ) : List JobId :=
  let rest := x.lane.erase id
  rest.insertIdx (max 0 (min (rest.length : ℤ) (position - 1))).toNat id

/-- `job_override` on a queued job; any other is left as it is. -/
def override (id : JobId) (action : Override) : Shared :=
  if id ∉ x.lane then x
  else
    match action with
    | .pin => x.withLane (x.reorder id 1)
    | .reorder position =>
        -- `int(position or 1)`
        x.withLane (x.reorder id (if position = some 0 then 1 else position.getD 1))
    | .cancel => x.withLane (x.lane.erase id)
    | .pause => x.withLane (x.reorder id x.lane.length)
    | .resume => x.withLane (x.reorder id 1)

end Shared

def advance (cfg : Config) : Interleaving.Program ThreadId Shared Pc Choice := fun t c x k =>
  match k, c with
  | .idle, .admitServing now =>
      if x.drains cfg now then some (x.compute cfg now, .idle)
      else some ({ x.compute cfg now with checking := t :: x.checking }, .checked)
  | .checked, .answer ok =>
      let x' := { x with checking := x.checking.erase t }
      if ok then
        -- the exclusive job closes the door
        if x.exclusive.isSome then none
        else some ({ x' with
          counting := t :: x.counting
          granted := x.grantedNow }, .granted)
      else some (x', .idle)
  | .granted, .go => some ({ x.countAdmission with counting := x.counting.erase t }, .idle)
  | .idle, .drainMode now => some (x.compute cfg now, .idle)
  | .idle, .enqueue id named now =>
      let x' := x.withLane (x.lane ++ [id])
      some (x'.noteJobQueued (if named then some id else none) now, .idle)
  | .idle, .admitHeadJob id acquired =>
      if acquired then
        if x.exclusive.isSome then none
        else some ({ x.withLane (x.lane.erase id) with
          exclusive := some id
          starting := (t, id) :: x.starting }, .starting id)
      else some (x, .idle)
  | .starting id, .note now =>
      some ({ x.noteJobStarted id now with starting := x.starting.erase (t, id) }, .idle)
  | .idle, .endJob id => some ({ x.endExclusive id with ending := t :: x.ending }, .ending)
  | .ending, .reset now => some ({ x.restart now with ending := x.ending.erase t }, .idle)
  | .idle, .override id action => some (x.override id action, .idle)
  | _, _ => none

abbrev Sys := Interleaving.State ThreadId Shared Pc

abbrev Act := ThreadId × Choice

abbrev next (cfg : Config) : Sys → Act → Option Sys := Interleaving.next (advance cfg)

def Sys.init : Sys := ⟨⟨[], [], none, 0, false, none, 0, false, [], [], [], []⟩, fun _ => .idle⟩

/-! ## What is asked -/

/-- The coordinator grants an inference request. -/
def Grants (s : Sys) (a : Act) : Prop := s.pc a.1 = .checked ∧ a.2 = .answer true

/-- The scheduler refuses one. -/
def Refuses (cfg : Config) (s : Sys) (a : Act) : Prop :=
  s.pc a.1 = .idle ∧ ∃ now, a.2 = .admitServing now ∧ s.shared.drains cfg now = true

/-- Drain mode is found on with no admission between its check and its answer
and no job that is not noted; and an admission passes while those counted and
those under way are fewer than the burst. -/
def Counts (cfg : Config) (x : Shared) (now : Time) : Prop :=
  if x.drains cfg now then x.checking = [] ∧ x.starting = []
  else x.since = none ∨
    (x.count : ℤ) + x.checking.length + x.counting.length < cfg.inferenceBurst

/-- Admissions count; none is granted to a waiting job's loss between the two
parts of another job's end; a job comes to an empty lane with no more than the
burst under way; the head of the lane starts, and ends once it is noted; a job
that ends leaves none waiting in drain mode; and no queued job is cancelled. -/
def Orderly (cfg : Config) (s : Sys) (a : Act) : Prop :=
  match s.pc a.1, a.2 with
  | .idle, .admitServing now => Counts cfg s.shared now
  | .idle, .drainMode now =>
      s.shared.drains cfg now = true → s.shared.checking = [] ∧ s.shared.starting = []
  | .checked, .answer true => s.shared.ending = [] ∨ s.shared.lane = []
  | .idle, .enqueue id named _ =>
      named = true ∧ id ∉ s.shared.lane ∧ id ∉ s.shared.queuedIds ∧
        (s.shared.lane = [] → (s.shared.checking.length : ℤ) ≤ cfg.inferenceBurst)
  | .idle, .admitHeadJob id true => s.shared.lane.head? = some id
  | .idle, .endJob id => s.shared.starting = [] ∧ s.shared.exclusive.isSome = true ∧
      (id = none ∨ id = s.shared.exclusive)
  | .ending, .reset _ => s.shared.drainMode = false ∨ s.shared.lane = []
  | .idle, .override id .cancel => id ∉ s.shared.lane
  | _, _ => True

instance (cfg : Config) (x : Shared) (now : Time) : Decidable (Counts cfg x now) := by
  unfold Counts
  infer_instance

instance (cfg : Config) (s : Sys) (a : Act) : Decidable (Orderly cfg s a) := by
  unfold Orderly
  exact Interleaving.pointwise (s.pc a.1) a.2 fun pc c => by split <;> infer_instance

/-! ## The invariant -/

structure Inv (cfg : Config) (x : Shared) : Prop where
  clock : x.lane ≠ [] → x.since ≠ none
  waits : x.since ≠ none → x.lane ≠ [] ∨ x.starting ≠ []
  mirror : ∀ id, id ∈ x.queuedIds ↔ id ∈ x.lane ∨ id ∈ x.starting.map Prod.snd
  queuedNodup : x.queuedIds.Nodup
  laneNodup : x.lane.Nodup
  one : ∀ p ∈ x.starting, x.starting = [p] ∧ x.exclusive = some p.2 ∧ p.2 ∉ x.lane
  empty : x.lane = [] → x.granted = 0 ∧ x.begun = false
  busy : x.exclusive ≠ none → x.granted = 0
  ended : x.ending ≠ [] → x.granted = 0
  room : x.lane ≠ [] → (x.granted : ℤ) + x.checking.length ≤ cfg.inferenceBurst
  counted : x.lane ≠ [] → x.granted ≤ x.count + x.counting.length
  begun : x.begun = true → x.drainMode = true ∧ x.checking = []
  fresh : x.starting ≠ [] → x.begun = false

/-- Threads are on the lists of where they stand. -/
def Listed (t : ThreadId) (x : Shared) : Pc → Prop
  | .idle => True
  | .checked => t ∈ x.checking
  | .granted => t ∈ x.counting
  | .starting id => (t, id) ∈ x.starting
  | .ending => t ∈ x.ending

variable {cfg : Config} {x : Shared} {t : ThreadId} {id : JobId} {now : Time}

/-- Another lane keeps all but itself and the history. -/
theorem withLane_eq (lane : List JobId) : ∃ granted begun,
    x.withLane lane = { x with lane := lane, granted := granted, begun := begun } ∧
      ((lane.head? = x.lane.head? ∧ granted = x.granted ∧ begun = x.begun) ∨
        lane.head? ≠ x.lane.head? ∧ granted = 0 ∧ begun = false) := by
  unfold Shared.withLane
  split_ifs with hhead
  · exact ⟨x.granted, x.begun, rfl, .inl ⟨hhead, rfl, rfl⟩⟩
  · exact ⟨0, false, rfl, .inr ⟨hhead, rfl, rfl⟩⟩

theorem drains_of_begun (h : Inv cfg x) (hbegun : x.begun = true) : x.drains cfg now = true := by
  have hlane : x.lane ≠ [] := by
    intro hempty
    rw [(h.empty hempty).2] at hbegun
    cases hbegun
  unfold Shared.drains
  cases hsince : x.since with
  | none => exact absurd hsince (h.clock hlane)
  | some since => simp [(h.begun hbegun).1]

namespace Inv

variable (h : Inv cfg x)

include h

theorem compute (hstop : x.drains cfg now = true → x.checking = [] ∧ x.starting = []) :
    Inv cfg (x.compute cfg now) :=
  { h with
    empty := fun hlane => by
      obtain ⟨hgranted, hbegun⟩ := h.empty hlane
      refine ⟨hgranted, ?_⟩
      have hlane : x.lane = [] := hlane
      simp [Shared.compute, hbegun, hlane]
    begun := fun hbegun => by
      show x.drains cfg now = true ∧ x.checking = []
      rcases Bool.or_eq_true _ _ ▸ hbegun with hbegun | hbegun
      · exact ⟨drains_of_begun h hbegun, (h.begun hbegun).2⟩
      · have hdrains := (Bool.and_eq_true _ _ ▸ hbegun).1
        exact ⟨hdrains, (hstop hdrains).1⟩
    fresh := fun hne => by
      have hne : x.starting ≠ [] := hne
      have hoff : x.drains cfg now = false := by
        by_contra hdrains
        exact hne (hstop (Bool.not_eq_false _ ▸ hdrains)).2
      simp [Shared.compute, h.fresh hne, hoff] }

/-- A check that passes has room for one more. -/
theorem check (hpass : x.drains cfg now = false) (hcounts : Counts cfg x now) :
    Inv cfg { x.compute cfg now with checking := t :: x.checking } := by
  have hstop : x.drains cfg now = true → x.checking = [] ∧ x.starting = [] := by
    intro hdrains
    rw [hpass] at hdrains
    cases hdrains
  have hcompute := h.compute hstop
  have hbegun : x.begun = false := by
    by_contra hbegun
    rw [drains_of_begun h (Bool.not_eq_false _ ▸ hbegun)] at hpass
    cases hpass
  exact { hcompute with
    room := fun hlane => by
      have hcounted := h.counted hlane
      unfold Counts at hcounts
      rw [hpass, if_neg (by simp)] at hcounts
      have hroom := hcounts.resolve_left (h.clock hlane)
      show (x.granted : ℤ) + (t :: x.checking).length ≤ _
      rw [List.length_cons]
      omega
    begun := fun hb => by simp [Shared.compute, hbegun, hpass] at hb }

theorem refuse : Inv cfg { x with checking := x.checking.erase t } :=
  { h with
    room := fun hlane => by
      have hroom := h.room hlane
      have hle := List.length_erase_le (a := t) (l := x.checking)
      show (x.granted : ℤ) + (x.checking.erase t).length ≤ _
      omega
    begun := fun hb => by
      obtain ⟨hdrain, hchecking⟩ := h.begun hb
      refine ⟨hdrain, ?_⟩
      show x.checking.erase t = []
      simp [hchecking] }

theorem grant (ht : t ∈ x.checking) (hending : x.ending = [] ∨ x.lane = [])
    (hexclusive : x.exclusive = none) :
    Inv cfg { x with
      checking := x.checking.erase t
      counting := t :: x.counting
      granted := x.grantedNow } := by
  have hlength := List.length_erase_of_mem ht
  have hpos := List.length_pos_of_mem ht
  exact { h with
    empty := fun hlane => by
      have hlane : x.lane = [] := hlane
      simp [Shared.grantedNow, hlane, h.empty hlane]
    busy := fun hbusy => absurd hexclusive hbusy
    ended := fun hne => by
      have hlane := hending.resolve_left hne
      show x.grantedNow = 0
      simp [Shared.grantedNow, hlane, (h.empty hlane).1]
    room := fun hlane => by
      have hroom := h.room hlane
      show (x.grantedNow : ℤ) + (x.checking.erase t).length ≤ _
      unfold Shared.grantedNow
      split_ifs <;> omega
    counted := fun hlane => by
      have hcounted := h.counted hlane
      show x.grantedNow ≤ x.count + (t :: x.counting).length
      rw [List.length_cons]
      unfold Shared.grantedNow
      split_ifs <;> omega
    begun := fun hb => absurd (h.begun hb).2 (List.ne_nil_of_mem ht) }

theorem countAdmission (ht : t ∈ x.counting) :
    Inv cfg { x.countAdmission with counting := x.counting.erase t } :=
  { h with
    counted := fun hlane => by
      have hcounted := h.counted hlane
      have hlength := List.length_erase_of_mem ht
      have hpos := List.length_pos_of_mem ht
      show x.granted ≤ (if x.since.isSome then x.count + 1 else x.count) +
        (x.counting.erase t).length
      rw [if_pos (Option.isSome_iff_ne_none.mpr (h.clock hlane))]
      omega }

theorem enqueue (hlane : id ∉ x.lane) (hqueued : id ∉ x.queuedIds)
    (hunder : x.lane = [] → (x.checking.length : ℤ) ≤ cfg.inferenceBurst) :
    Inv cfg ((x.withLane (x.lane ++ [id])).noteJobQueued (some id) now) := by
  obtain ⟨granted, begun, heq, hhead⟩ := withLane_eq (x := x) (x.lane ++ [id])
  have hstarting : id ∉ x.starting.map Prod.snd := fun hin =>
    hqueued ((h.mirror id).mpr (.inr hin))
  have hle : granted ≤ x.granted ∧ (begun = true → x.begun = true) := by
    rcases hhead with ⟨-, rfl, rfl⟩ | ⟨-, rfl, rfl⟩
    · exact ⟨le_rfl, fun h => h⟩
    · exact ⟨Nat.zero_le _, fun h => by cases h⟩
  rw [heq]
  exact { h with
    clock := fun _ => by
      show x.since.or (some now) ≠ none
      cases x.since <;> simp
    waits := fun _ => .inl (by
      show x.lane ++ [id] ≠ []
      simp)
    mirror := fun id' => by
      show id' ∈ (if id ∈ x.queuedIds then x.queuedIds else x.queuedIds ++ [id]) ↔
        id' ∈ x.lane ++ [id] ∨ id' ∈ x.starting.map Prod.snd
      rw [if_neg hqueued, List.mem_append, List.mem_append, h.mirror]
      tauto
    queuedNodup := by
      show (if id ∈ x.queuedIds then x.queuedIds else x.queuedIds ++ [id]).Nodup
      rw [if_neg hqueued]
      exact List.nodup_append.mpr ⟨h.queuedNodup, List.nodup_singleton id, by
        intro a ha b hb
        rw [List.mem_singleton.mp hb]
        exact fun heq => hqueued (heq ▸ ha)⟩
    laneNodup := List.nodup_append.mpr ⟨h.laneNodup, List.nodup_singleton id, by
      intro a ha b hb
      rw [List.mem_singleton.mp hb]
      exact fun heq => hlane (heq ▸ ha)⟩
    one := fun p hp => by
      obtain ⟨hone, hexclusive, hout⟩ := h.one p hp
      refine ⟨hone, hexclusive, fun hin => ?_⟩
      rcases List.mem_append.mp hin with hin | hin
      · exact hout hin
      · exact hstarting (List.mem_singleton.mp hin ▸ List.mem_map_of_mem hp)
    empty := fun hnil => by
      have hnil : x.lane ++ [id] = [] := hnil
      simp at hnil
    busy := fun hbusy => Nat.le_zero.mp (hle.1.trans (h.busy hbusy).le)
    ended := fun hne => Nat.le_zero.mp (hle.1.trans (h.ended hne).le)
    room := fun _ => by
      show (granted : ℤ) + x.checking.length ≤ _
      by_cases hnil : x.lane = []
      · rw [(h.empty hnil).1] at hle
        have := hunder hnil
        omega
      · have hroom := h.room hnil
        omega
    counted := fun _ => by
      show granted ≤ (if x.since.isNone then 0 else x.count) + x.counting.length
      by_cases hnil : x.lane = []
      · rw [(h.empty hnil).1] at hle
        omega
      · have hcounted := h.counted hnil
        have hsome := Option.isSome_iff_ne_none.mpr (h.clock hnil)
        rw [← Option.not_isSome, hsome, Bool.not_true, if_neg (by simp)]
        omega
    begun := fun hb => h.begun (hle.2 hb)
    fresh := fun hne => by
      by_contra hb
      have hfresh := h.fresh hne
      rw [hle.2 (Bool.not_eq_false _ ▸ hb)] at hfresh
      cases hfresh }

theorem acquire (hhead : x.lane.head? = some id) (hexclusive : x.exclusive = none) :
    Inv cfg { x.withLane (x.lane.erase id) with
      exclusive := some id
      starting := (t, id) :: x.starting } := by
  obtain ⟨rest, hlane⟩ : ∃ rest, x.lane = id :: rest := by
    cases hlane : x.lane with
    | nil =>
      rw [hlane] at hhead
      cases hhead
    | cons id' rest =>
      rw [hlane] at hhead
      cases hhead
      exact ⟨rest, rfl⟩
  have hnodup := h.laneNodup
  rw [hlane, List.nodup_cons] at hnodup
  have herase : x.lane.erase id = rest := by simp [hlane]
  have hstarting : x.starting = [] := by
    by_contra hne
    obtain ⟨p, hp⟩ := List.exists_mem_of_ne_nil _ hne
    rw [(h.one p hp).2.1] at hexclusive
    cases hexclusive
  -- another head: the history starts anew
  have hother : x.withLane (x.lane.erase id) =
      { x with lane := rest, granted := 0, begun := false } := by
    have hne : rest.head? ≠ x.lane.head? := by
      rw [hhead]
      intro heq
      exact hnodup.1 (List.mem_of_head? heq)
    rw [herase, Shared.withLane, if_neg hne]
  rw [hother]
  have hroom := h.room (by simp [hlane])
  exact { h with
    clock := fun _ => h.clock (by simp [hlane])
    waits := fun _ => .inr (by simp)
    mirror := fun id' => by
      show id' ∈ x.queuedIds ↔ id' ∈ rest ∨ id' ∈ ((t, id) :: x.starting).map Prod.snd
      rw [h.mirror, hlane, List.map_cons, List.mem_cons, List.mem_cons]
      tauto
    laneNodup := hnodup.2
    one := fun p hp => by
      have hp : p ∈ (t, id) :: x.starting := hp
      rw [hstarting, List.mem_singleton] at hp
      subst hp
      exact ⟨by rw [hstarting], rfl, hnodup.1⟩
    empty := fun _ => ⟨rfl, rfl⟩
    busy := fun _ => rfl
    ended := fun _ => rfl
    room := fun _ => by
      show ((0 : ℕ) : ℤ) + x.checking.length ≤ _
      omega
    counted := fun _ => Nat.zero_le _
    begun := fun hb => by cases hb
    fresh := fun _ => rfl }

/-- Where the scheduler's own part starts anew. -/
theorem restart {ids : List JobId} {starting : List (ThreadId × JobId)} (hnodup : ids.Nodup)
    (hids : ∀ id, id ∈ ids ↔ id ∈ x.lane ∨ id ∈ starting.map Prod.snd)
    (hsub : ∀ p ∈ starting, p ∈ x.starting ∧ starting = [p])
    (hgranted : x.granted = 0) (hbegun : x.begun = false) :
    Inv cfg { Shared.restart { x with queuedIds := ids } now with starting := starting } :=
  { h with
    clock := fun hlane => by
      obtain ⟨id, hid⟩ := List.exists_mem_of_ne_nil _ hlane
      have hne : ids ≠ [] := List.ne_nil_of_mem ((hids id).mpr (.inl hid))
      show (if ids.isEmpty then none else some now) ≠ none
      simp [hne]
    waits := fun hsince => by
      have hsince : (if ids.isEmpty then none else some now) ≠ none := hsince
      have hne : ids ≠ [] := by
        rintro rfl
        exact hsince rfl
      obtain ⟨id, hid⟩ := List.exists_mem_of_ne_nil _ hne
      refine ((hids id).mp hid).imp List.ne_nil_of_mem ?_
      rintro hin rfl
      cases hin
    mirror := hids
    queuedNodup := hnodup
    one := fun p hp => by
      obtain ⟨hin, heq⟩ := hsub p hp
      exact ⟨heq, (h.one p hin).2⟩
    counted := fun _ => by
      show x.granted ≤ _
      omega
    begun := fun hb => by
      have hb : x.begun = true := hb
      rw [hbegun] at hb
      cases hb
    fresh := fun _ => hbegun }

theorem note (hid : (t, id) ∈ x.starting) :
    Inv cfg { x.noteJobStarted id now with starting := x.starting.erase (t, id) } := by
  obtain ⟨hone, hexclusive, hout⟩ := h.one _ hid
  have herase : x.starting.erase (t, id) = [] := by simp [hone]
  rw [herase]
  refine h.restart (h.queuedNodup.erase id) ?_ (fun _ hin => by cases hin)
    (h.busy (by simp [hexclusive])) (h.fresh (by simp [hone]))
  intro id'
  rw [h.queuedNodup.mem_erase_iff, h.mirror, hone, List.map_singleton, List.mem_singleton]
  constructor
  · rintro ⟨hne, hin | heq⟩
    · exact .inl hin
    · exact absurd heq hne
  · rintro (hin | hin)
    · exact ⟨fun heq => hout (heq ▸ hin), .inl hin⟩
    · cases hin

theorem reset (ht : t ∈ x.ending) (hdrain : x.drainMode = false ∨ x.lane = []) :
    Inv cfg { x.restart now with ending := x.ending.erase t } := by
  have hbegun : x.begun = false := by
    rcases hdrain with hdrain | hlane
    · by_contra hb
      rw [(h.begun (Bool.not_eq_false _ ▸ hb)).1] at hdrain
      cases hdrain
    · exact (h.empty hlane).2
  have hgranted := h.ended (List.ne_nil_of_mem ht)
  have hrestart : Inv cfg (x.restart now) :=
    h.restart h.queuedNodup h.mirror (fun p hp => ⟨hp, (h.one p hp).1⟩) hgranted hbegun
  exact { hrestart with ended := fun _ => hgranted }

theorem endExclusive {job : Option JobId} (hstarting : x.starting = [])
    (hexclusive : x.exclusive.isSome = true) (hjob : job = none ∨ job = x.exclusive) :
    Inv cfg { x.endExclusive job with ending := t :: x.ending } := by
  have heq : x.endExclusive job = { x with exclusive := none } := by
    unfold Shared.endExclusive
    rcases hjob with rfl | rfl <;> simp
  have hgranted := h.busy (Option.isSome_iff_ne_none.mp hexclusive)
  rw [heq]
  exact { h with
    one := fun p hp => by
      have hp : p ∈ x.starting := hp
      rw [hstarting] at hp
      cases hp
    busy := fun hne => absurd rfl hne
    ended := fun _ => hgranted }

/-- Another order of the lane. -/
theorem permute {lane : List JobId} (hperm : lane.Perm x.lane) : Inv cfg (x.withLane lane) := by
  obtain ⟨granted, begun, heq, hhead⟩ := withLane_eq (x := x) lane
  have hle : granted ≤ x.granted ∧ (begun = true → x.begun = true) := by
    rcases hhead with ⟨-, rfl, rfl⟩ | ⟨-, rfl, rfl⟩
    · exact ⟨le_rfl, fun h => h⟩
    · exact ⟨Nat.zero_le _, fun h => by cases h⟩
  have hbegun : x.begun = false → begun = false := fun hfalse => by
    by_contra hb
    rw [hle.2 (Bool.not_eq_false _ ▸ hb)] at hfalse
    cases hfalse
  have hnil : lane = [] ↔ x.lane = [] := by
    constructor
    · rintro rfl
      exact hperm.symm.eq_nil
    · intro hx
      exact (hx ▸ hperm).eq_nil
  rw [heq]
  exact { h with
    clock := fun hne => h.clock (hnil.not.mp hne)
    waits := fun hsince => (h.waits hsince).imp hnil.not.mpr id
    mirror := fun id => by
      show id ∈ x.queuedIds ↔ id ∈ lane ∨ id ∈ x.starting.map Prod.snd
      rw [h.mirror, hperm.mem_iff]
    laneNodup := hperm.nodup_iff.mpr h.laneNodup
    one := fun p hp => by
      obtain ⟨hone, hexclusive, hout⟩ := h.one p hp
      exact ⟨hone, hexclusive, fun hin => hout (hperm.mem_iff.mp hin)⟩
    empty := fun hlane => by
      obtain ⟨hgranted, hb⟩ := h.empty (hnil.mp hlane)
      exact ⟨Nat.le_zero.mp (hle.1.trans hgranted.le), hbegun hb⟩
    busy := fun hbusy => Nat.le_zero.mp (hle.1.trans (h.busy hbusy).le)
    ended := fun hne => Nat.le_zero.mp (hle.1.trans (h.ended hne).le)
    room := fun hne => by
      have hroom := h.room (hnil.not.mp hne)
      show (granted : ℤ) + x.checking.length ≤ _
      omega
    counted := fun hne => hle.1.trans (h.counted (hnil.not.mp hne))
    begun := fun hb => h.begun (hle.2 hb)
    fresh := fun hne => hbegun (h.fresh hne) }

theorem override {action : Override} (hcancel : action = .cancel → id ∉ x.lane) :
    Inv cfg (x.override id action) := by
  unfold Shared.override
  by_cases hid : id ∈ x.lane
  swap
  · rw [if_pos hid]
    exact h
  rw [if_neg (not_not.mpr hid)]
  have hreorder : ∀ position, (x.reorder id position).Perm x.lane := by
    intro position
    refine (List.perm_insertIdx _ _ ?_).trans (List.perm_cons_erase hid).symm
    omega
  cases action with
  | cancel => exact absurd hid (hcancel rfl)
  | _ => exact h.permute (hreorder _)

end Inv

/-! ## Runs -/

/-- The other threads stay on their lists. -/
structure Others (t : ThreadId) (x x' : Shared) : Prop where
  checking : ∀ u ≠ t, u ∈ x.checking → u ∈ x'.checking
  counting : ∀ u ≠ t, u ∈ x.counting → u ∈ x'.counting
  ending : ∀ u ≠ t, u ∈ x.ending → u ∈ x'.ending
  starting : ∀ u ≠ t, ∀ id, (u, id) ∈ x.starting → (u, id) ∈ x'.starting

theorem Others.rfl : Others t x x :=
  ⟨fun _ _ h => h, fun _ _ h => h, fun _ _ h => h, fun _ _ _ h => h⟩

theorem others_withLane (lane : List JobId) : Others t x (x.withLane lane) := by
  obtain ⟨granted, begun, heq, -⟩ := withLane_eq (x := x) lane
  rw [heq]
  exact ⟨fun _ _ h => h, fun _ _ h => h, fun _ _ h => h, fun _ _ _ h => h⟩

theorem others_override (id : JobId) (action : Override) : Others t x (x.override id action) := by
  unfold Shared.override
  by_cases hid : id ∈ x.lane
  · rw [if_neg (not_not.mpr hid)]
    cases action <;> exact others_withLane _
  · rw [if_pos hid]
    exact .rfl

theorem others_endExclusive (job : Option JobId) :
    Others t x { x.endExclusive job with ending := t :: x.ending } := by
  have heq : ∃ exclusive, x.endExclusive job = { x with exclusive := exclusive } := by
    unfold Shared.endExclusive
    split_ifs
    · exact ⟨_, .refl _⟩
    · exact ⟨x.exclusive, .refl _⟩
  obtain ⟨exclusive, heq⟩ := heq
  rw [heq]
  exact ⟨fun _ _ h => h, fun _ _ h => h, fun _ _ h => List.mem_cons_of_mem _ h, fun _ _ _ h => h⟩

theorem others_of_advance {c : Choice} {x' : Shared} {k k' : Pc}
    (ha : advance cfg t c x k = some (x', k')) : Others t x x' := by
  have hleave : ∀ {l : List ThreadId} (u : ThreadId), u ≠ t → u ∈ l → u ∈ l.erase t :=
    fun u hu hin => (List.mem_erase_of_ne hu).mpr hin
  cases k with
  | idle =>
    cases c with
    | admitServing now =>
      simp only [advance] at ha
      split_ifs at ha <;> cases ha
      · exact ⟨fun _ _ h => h, fun _ _ h => h, fun _ _ h => h, fun _ _ _ h => h⟩
      · exact ⟨fun _ _ h => List.mem_cons_of_mem _ h, fun _ _ h => h, fun _ _ h => h,
          fun _ _ _ h => h⟩
    | drainMode now =>
      cases ha
      exact ⟨fun _ _ h => h, fun _ _ h => h, fun _ _ h => h, fun _ _ _ h => h⟩
    | enqueue id named now =>
      cases ha
      have hlane := others_withLane (t := t) (x := x) (x.lane ++ [id])
      exact ⟨hlane.checking, hlane.counting, hlane.ending, hlane.starting⟩
    | admitHeadJob id acquired =>
      have hlane := others_withLane (t := t) (x := x) (x.lane.erase id)
      simp only [advance] at ha
      split_ifs at ha <;> cases ha
      · exact ⟨hlane.checking, hlane.counting, hlane.ending,
          fun _ _ _ h => List.mem_cons_of_mem _ h⟩
      · exact .rfl
    | endJob job =>
      cases ha
      exact others_endExclusive job
    | override id action =>
      cases ha
      exact others_override id action
    | answer | go | note | reset => cases ha
  | checked =>
    cases c with
    | answer ok =>
      simp only [advance] at ha
      split_ifs at ha <;> cases ha
      · exact ⟨hleave, fun _ _ h => List.mem_cons_of_mem _ h, fun _ _ h => h, fun _ _ _ h => h⟩
      · exact ⟨hleave, fun _ _ h => h, fun _ _ h => h, fun _ _ _ h => h⟩
    | _ => cases ha
  | granted =>
    cases c with
    | go =>
      cases ha
      exact ⟨fun _ _ h => h, hleave, fun _ _ h => h, fun _ _ _ h => h⟩
    | _ => cases ha
  | starting id =>
    cases c with
    | note now =>
      cases ha
      refine ⟨fun _ _ h => h, fun _ _ h => h, fun _ _ h => h, fun u hu id' h => ?_⟩
      exact (List.mem_erase_of_ne fun heq => hu (Prod.mk.inj heq).1).mpr h
    | _ => cases ha
  | ending =>
    cases c with
    | reset now =>
      cases ha
      exact ⟨fun _ _ h => h, fun _ _ h => h, hleave, fun _ _ _ h => h⟩
    | _ => cases ha

theorem Listed.other {x' : Shared} {l : Pc} {u : ThreadId} (h : Others t x x') (hu : u ≠ t)
    (hl : Listed u x l) : Listed u x' l := by
  cases l with
  | idle => trivial
  | checked => exact h.checking u hu hl
  | granted => exact h.counting u hu hl
  | starting id => exact h.starting u hu id hl
  | ending => exact h.ending u hu hl

/-- A step keeps the invariant, and puts its thread on its list. -/
theorem Inv.step {c : Choice} {x' : Shared} {k k' : Pc} (h : Inv cfg x) (ht : Listed t x k)
    (ho : Orderly cfg ⟨x, fun _ => k⟩ (t, c))
    (ha : advance cfg t c x k = some (x', k')) : Inv cfg x' ∧ Listed t x' k' := by
  unfold Orderly at ho
  dsimp only at ho
  cases k with
  | idle =>
    cases c with
    | admitServing now =>
      simp only [advance] at ha
      split_ifs at ha with hdrains <;> cases ha
      · have hcounts : Counts cfg x now := ho
        rw [Counts, if_pos hdrains] at hcounts
        exact ⟨h.compute fun _ => hcounts, trivial⟩
      · exact ⟨h.check (Bool.not_eq_true _ ▸ hdrains) ho, List.mem_cons_self ..⟩
    | drainMode now =>
      cases ha
      exact ⟨h.compute ho, trivial⟩
    | enqueue id named now =>
      obtain ⟨rfl, hlane, hqueued, hunder⟩ := ho
      cases ha
      exact ⟨h.enqueue hlane hqueued hunder, trivial⟩
    | admitHeadJob id acquired =>
      simp only [advance] at ha
      split_ifs at ha with hacquired hexclusive <;> cases ha
      · subst hacquired
        exact ⟨h.acquire ho (by simpa using hexclusive), List.mem_cons_self ..⟩
      · exact ⟨h, trivial⟩
    | endJob job =>
      obtain ⟨hstarting, hexclusive, hjob⟩ := ho
      cases ha
      exact ⟨h.endExclusive hstarting hexclusive hjob, List.mem_cons_self ..⟩
    | override id action =>
      cases ha
      refine ⟨h.override fun hcancel => ?_, trivial⟩
      subst hcancel
      exact ho
    | answer | go | note | reset => cases ha
  | checked =>
    cases c with
    | answer ok =>
      simp only [advance] at ha
      split_ifs at ha with hok hexclusive <;> cases ha
      · subst hok
        exact ⟨h.grant ht ho (by simpa using hexclusive), List.mem_cons_self ..⟩
      · exact ⟨h.refuse, trivial⟩
    | _ => cases ha
  | granted =>
    cases c with
    | go =>
      cases ha
      exact ⟨h.countAdmission ht, trivial⟩
    | _ => cases ha
  | starting id =>
    cases c with
    | note now =>
      cases ha
      exact ⟨h.note ht, trivial⟩
    | _ => cases ha
  | ending =>
    cases c with
    | reset now =>
      cases ha
      exact ⟨h.reset ht ho, trivial⟩
    | _ => cases ha

theorem inv_init : Interleaving.Holds (Inv cfg) Listed Sys.init := by
  refine ⟨?_, fun _ => trivial⟩
  constructor
  case queuedNodup | laneNodup => exact List.nodup_nil
  case mirror => exact fun id => by simp [Sys.init]
  case empty => exact fun _ => ⟨rfl, rfl⟩
  case one =>
    intro p hp
    cases hp
  case begun =>
    intro hb
    cases hb
  all_goals
    intro hne
    exact absurd rfl hne

theorem holds_of_reachable {s : Sys} (h : Runs.Reachable (next cfg) (Orderly cfg) Sys.init s) :
    Interleaving.Holds (Inv cfg) Listed s := by
  refine h.invariant inv_init fun s a s' _ ih ho hn => ?_
  obtain ⟨t, c⟩ := a
  refine ih.next hn (fun x k ha => ?_) fun x k ha u hu hl => hl.other (others_of_advance ha) hu
  exact ih.global.step (ih.thread t) ho ha

/-! ## The bound -/

/-- In a run that keeps to the order no more than `inference_burst` inference
requests are granted while one job waits at the head, none once drain mode has
begun for it, and none is refused with no job waiting. -/
theorem waiting_bounded (cfg : Config) (hburst : 0 ≤ cfg.inferenceBurst) {s : Sys}
    (h : Runs.Reachable (next cfg) (Orderly cfg) Sys.init s) :
    (s.shared.granted : ℤ) ≤ cfg.inferenceBurst ∧
      ∀ a s', Orderly cfg s a → next cfg s a = some s' →
        (Grants s a → s.shared.begun = false) ∧ (Refuses cfg s a → s.shared.lane ≠ []) := by
  have hinv := holds_of_reachable h
  refine ⟨?_, fun a s' ho hn => ⟨?_, ?_⟩⟩
  · by_cases hlane : s.shared.lane = []
    · rw [(hinv.global.empty hlane).1]
      exact hburst
    · have hroom := hinv.global.room hlane
      omega
  · rintro ⟨hpc, -⟩
    have hlisted := hinv.thread a.1
    rw [hpc] at hlisted
    by_contra hbegun
    have hnone := (hinv.global.begun (Bool.not_eq_false _ ▸ hbegun)).2
    exact List.ne_nil_of_mem hlisted hnone
  · obtain ⟨t, c⟩ := a
    rintro ⟨hpc, now, hc, hdrains⟩
    have hpc : s.pc t = .idle := hpc
    have hc : c = .admitServing now := hc
    subst hc
    unfold Orderly at ho
    simp only [hpc, Counts, hdrains, if_true] at ho
    have hsince : s.shared.since ≠ none := by
      intro hnone
      unfold Shared.drains at hdrains
      rw [hnone] at hdrains
      cases hdrains
    exact (hinv.global.waits hsince).resolve_right fun hne => hne ho.2

/-! ## One request a job -/

def oneBurst : Config := ⟨1, 60⟩

/-- A job waits, and a request is granted and counted. -/
def oneGranted : List Act :=
  [(0, .enqueue "train" true 0), (1, .admitServing 1), (1, .answer true), (1, .go)]

theorem oneGranted_bounded : ∃ s s', next oneBurst s (1, .admitServing 2) = some s' ∧
    s.shared.granted = 1 ∧ (s.shared.granted : ℤ) ≤ oneBurst.inferenceBurst ∧
    Refuses oneBurst s (1, .admitServing 2) ∧ s.shared.lane ≠ [] := by
  have hrun : ((Runs.run (next oneBurst) (Orderly oneBurst) Sys.init oneGranted).bind fun s =>
      (next oneBurst s (1, .admitServing 2)).map fun _ => decide (s.shared.granted = 1) &&
        decide (s.pc 1 = .idle) && s.shared.drains oneBurst 2 &&
        decide (Orderly oneBurst s (1, .admitServing 2))) = some true := by
    decide +kernel
  obtain ⟨s, s', hs, hn, hp⟩ := Runs.exists_step hrun
  simp only [Bool.and_eq_true, decide_eq_true_eq] at hp
  obtain ⟨⟨⟨hgranted, hpc⟩, hdrains⟩, ho⟩ := hp
  have hrefuses : Refuses oneBurst s (1, .admitServing 2) := ⟨hpc, 2, rfl, hdrains⟩
  obtain ⟨hbound, hstep⟩ := waiting_bounded oneBurst (by decide) hs
  exact ⟨s, s', hn, hgranted, hbound, hrefuses, (hstep _ s' ho hn).2 hrefuses⟩

/-- The only job is cancelled; the scheduler is not told, and refuses from then
on. -/
theorem cancelled_refuses : ¬ ∀ s, Runs.Reachable (next oneBurst) Runs.anyStep Sys.init s →
    (s.shared.granted : ℤ) ≤ oneBurst.inferenceBurst ∧ ∀ a s', next oneBurst s a = some s' →
      (Grants s a → s.shared.begun = false) ∧ (Refuses oneBurst s a → s.shared.lane ≠ []) := by
  intro hclaim
  have hrun : ((Runs.run (next oneBurst) Runs.anyStep Sys.init
      [(0, .enqueue "train" true 0), (0, .override "train" .cancel)]).bind fun s =>
        (next oneBurst s (1, .admitServing 60)).map fun _ => decide (s.shared.lane = []) &&
          decide (s.pc 1 = .idle) && s.shared.drains oneBurst 60) = some true := by
    decide +kernel
  obtain ⟨s, s', hs, hn, hp⟩ := Runs.exists_step hrun
  simp only [Bool.and_eq_true, decide_eq_true_eq] at hp
  obtain ⟨⟨hlane, hpc⟩, hdrains⟩ := hp
  exact ((hclaim s hs).2 _ s' hn).2 ⟨hpc, 60, rfl, hdrains⟩ hlane

end MlopsLite.HostAgent.Scheduler
