import MlopsLite.Lib.Runs

/-!
# Console — single flight

`_run_detached`, `_read_key`, `_spawn` and `Projection.read`
(`gateway/app/console/__init__.py`). The event loop runs one step of a request at a
time: `_spawn` up to the start of its thread is one. A thread has read when it has
given its key back; what it read is then put into its future by a callback.
-/

namespace MlopsLite.Gateway.Console.SingleFlight

open Runs (Trace)

/-- A read: its source, the `__qualname__` of its function, and what a call of that
function reads, with its arguments. -/
structure SourceRead where
  source : String
  qualname : String
  call : String
  deriving DecidableEq

/-- `_read_key`. -/
def SourceRead.key (r : SourceRead) : String := r.source ++ ":" ++ r.qualname

/-- How the function of a read ends. -/
inductive Answer
  | returned (value : String)
  | raised
  deriving DecidableEq

/-- What `Projection.read` makes of it: `none` is a degraded source. -/
def Answer.value : Answer → Option String
  | .returned value => some value
  | .raised => none

/-- A thread that has not given its key back. -/
structure ReadThread where
  future : ℕ
  read : SourceRead

/-- `inflight` is `_inflight`; the futures in `waiting` are awaited, and what is in
`posted` is for the loop to put into one. The rest is history: how the reads ended, and
what was running when one was refused. -/
structure State where
  inflight : Finset String
  threads : List ReadThread
  posted : List (ℕ × Answer)
  waiting : List (ℕ × SourceRead)
  spawned : ℕ
  ended : List (SourceRead × Option String)
  refused : List (SourceRead × List SourceRead)

def init : State := ⟨∅, [], [], [], 0, [], []⟩

inductive Act
  | read (r : SourceRead) (starts : Bool)
  | ends (future : ℕ) (answer : Answer)
  | deliver (future : ℕ)
  | timesOut (future : ℕ)

namespace State

variable (s : State)

/-- The key is in flight. -/
def refuse (r : SourceRead) : State :=
  { s with
    ended := s.ended ++ [(r, none)]
    refused := s.refused ++ [(r, s.threads.map ReadThread.read)] }

/-- The key is taken, and the thread starts. -/
def start (r : SourceRead) : State :=
  { s with
    inflight := insert r.key s.inflight
    threads := s.threads ++ [⟨s.spawned, r⟩]
    waiting := s.waiting ++ [(s.spawned, r)]
    spawned := s.spawned + 1 }

/-- The key is taken, and `Thread.start` raises. -/
def failToStart (r : SourceRead) : State :=
  { s with inflight := insert r.key s.inflight, ended := s.ended ++ [(r, none)] }

/-- `_run_detached`, from the end of the read to the callback. -/
def giveBack (t : ReadThread) (answer : Answer) : State :=
  { s with
    inflight := s.inflight.erase t.read.key
    threads := s.threads.filter fun u => u.future ≠ t.future
    posted := s.posted ++ [(t.future, answer)] }

/-- The callback: nothing for a future that is done. -/
def settle (future : ℕ) (answer : Answer) : State :=
  { s with
    posted := s.posted.filter fun p => p.1 ≠ future
    waiting := s.waiting.filter fun w => w.1 ≠ future
    ended := s.ended ++ ((s.waiting.lookup future).map fun r => (r, answer.value)).toList }

/-- `wait_for` gives up, and cancels the future. -/
def giveUp (future : ℕ) (r : SourceRead) : State :=
  { s with
    waiting := s.waiting.filter fun w => w.1 ≠ future
    ended := s.ended ++ [(r, none)] }

end State

def next (s : State) : Act → Option State
  | .read r starts =>
      if r.key ∈ s.inflight then some (s.refuse r)
      else if starts then some (s.start r)
      else some (s.failToStart r)
  | .ends future answer =>
      (s.threads.find? fun t => t.future = future).map fun t => s.giveBack t answer
  | .deliver future => (s.posted.lookup future).map fun answer => s.settle future answer
  | .timesOut future => (s.waiting.lookup future).map fun r => s.giveUp future r

/-- A key is in flight exactly while its thread reads, there is one thread for a key, and
a refused read was being read. -/
structure Exact (s : State) : Prop where
  held : ∀ k, k ∈ s.inflight ↔ ∃ t ∈ s.threads, t.read.key = k
  single : (s.threads.map fun t => t.read.key).Nodup
  refused : ∀ p ∈ s.refused, p.1 ∈ p.2

/-- A read whose key is in flight is the one that is being read; and a thread that is
needed starts. -/
def Sound (s : State) : Act → Prop
  | .read r starts =>
      if r.key ∈ s.inflight then ∃ t ∈ s.threads, t.read = r else starts = true
  | _ => True

/-- Each thread has a future of its own. -/
structure WellFormed (s : State) : Prop where
  old : ∀ t ∈ s.threads, t.future < s.spawned
  distinct : (s.threads.map ReadThread.future).Nodup

theorem wellFormed_init : WellFormed init := ⟨nofun, .nil⟩

theorem wellFormed_next {s s' : State} {a : Act} (h : WellFormed s) (hn : next s a = some s') :
    WellFormed s' := by
  cases a with
  | read r starts =>
    rw [next] at hn
    split_ifs at hn
    · cases hn
      exact ⟨h.old, h.distinct⟩
    · cases hn
      refine ⟨fun t ht => ?_, ?_⟩
      · rcases List.mem_append.mp ht with ht | ht
        · exact Nat.lt_succ_of_lt (h.old t ht)
        · obtain rfl := List.mem_singleton.mp ht
          exact Nat.lt_succ_self _
      · show ((s.threads ++ [_]).map ReadThread.future).Nodup
        rw [List.map_append, List.nodup_append]
        refine ⟨h.distinct, List.nodup_singleton _, ?_⟩
        intro f hf g hg
        obtain ⟨t, ht, rfl⟩ := List.mem_map.mp hf
        obtain rfl := List.mem_singleton.mp hg
        exact (h.old t ht).ne
    · cases hn
      exact ⟨h.old, h.distinct⟩
  | ends future answer =>
    obtain ⟨t, -, rfl⟩ := Option.map_eq_some_iff.mp hn
    refine ⟨fun u hu => h.old u (List.mem_filter.mp hu).1, ?_⟩
    exact h.distinct.sublist (List.filter_sublist.map _)
  | deliver future =>
    obtain ⟨answer, -, rfl⟩ := Option.map_eq_some_iff.mp hn
    exact ⟨h.old, h.distinct⟩
  | timesOut future =>
    obtain ⟨r, -, rfl⟩ := Option.map_eq_some_iff.mp hn
    exact ⟨h.old, h.distinct⟩

theorem wellFormed_of_reachable {s : State} (h : Runs.Reachable next Runs.anyStep init s) :
    WellFormed s :=
  h.invariant wellFormed_init fun _ _ _ _ hI _ hn => wellFormed_next hI hn

theorem exact_init : Exact init where
  held k := by simp [init]
  single := .nil
  refused := nofun

/-! ## One step -/

variable {s : State}

theorem exact_refuse_iff (h : Exact s) (r : SourceRead) :
    Exact (s.refuse r) ↔ ∃ t ∈ s.threads, t.read = r := by
  constructor
  · intro h'
    have hlast := h'.refused (r, s.threads.map ReadThread.read)
      (List.mem_append_right _ (List.mem_singleton.mpr rfl))
    exact List.mem_map.mp hlast
  · intro hrunning
    refine ⟨h.held, h.single, fun p hp => ?_⟩
    rcases List.mem_append.mp hp with hp | hp
    · exact h.refused p hp
    · obtain rfl := List.mem_singleton.mp hp
      exact List.mem_map.mpr hrunning

theorem exact_start (h : Exact s) {r : SourceRead} (hfree : r.key ∉ s.inflight) :
    Exact (s.start r) where
  held k := by
    show k ∈ insert r.key s.inflight ↔ ∃ t ∈ s.threads ++ [_], t.read.key = k
    rw [Finset.mem_insert, h.held, or_comm]
    simp only [List.mem_append, List.mem_singleton, or_and_right, exists_or, exists_eq_left,
      @eq_comm _ k]
  single := by
    show ((s.threads ++ [_]).map fun t : ReadThread => t.read.key).Nodup
    rw [List.map_append, List.nodup_append]
    refine ⟨h.single, List.nodup_singleton _, ?_⟩
    intro k hk k' hk'
    obtain ⟨t, ht, rfl⟩ := List.mem_map.mp hk
    obtain rfl := List.mem_singleton.mp hk'
    exact fun heq => hfree ((h.held _).mpr ⟨t, ht, heq⟩)
  refused := h.refused

/-- A key that is taken for a thread that does not start is nobody's. -/
theorem not_exact_failToStart (h : Exact s) {r : SourceRead} (hfree : r.key ∉ s.inflight) :
    ¬ Exact (s.failToStart r) := by
  intro h'
  have hrunning := (h'.held r.key).mp (Finset.mem_insert_self ..)
  exact hfree ((h.held r.key).mpr hrunning)

theorem exact_giveBack (hwf : WellFormed s) (h : Exact s) {t : ReadThread} (ht : t ∈ s.threads)
    (answer : Answer) : Exact (s.giveBack t answer) where
  held k := by
    show k ∈ s.inflight.erase t.read.key ↔
      ∃ u ∈ s.threads.filter fun u => u.future ≠ t.future, u.read.key = k
    rw [Finset.mem_erase, h.held]
    constructor
    · rintro ⟨hne, u, hu, rfl⟩
      refine ⟨u, List.mem_filter.mpr ⟨hu, decide_eq_true fun hfuture => hne ?_⟩, rfl⟩
      rw [List.inj_on_of_nodup_map hwf.distinct hu ht hfuture]
    · rintro ⟨u, hu, rfl⟩
      obtain ⟨hu, hfuture⟩ := List.mem_filter.mp hu
      refine ⟨fun hkey => of_decide_eq_true hfuture ?_, u, hu, rfl⟩
      rw [List.inj_on_of_nodup_map h.single hu ht hkey]
  single := h.single.sublist (List.filter_sublist.map _)
  refused := h.refused

/-- A step keeps single flight exact exactly if it is sound. -/
theorem exact_next_iff (hwf : WellFormed s) (h : Exact s) {a : Act} {s' : State}
    (hn : next s a = some s') : Exact s' ↔ Sound s a := by
  cases a with
  | read r starts =>
    rw [next] at hn
    by_cases hkey : r.key ∈ s.inflight
    · rw [if_pos hkey] at hn
      cases hn
      rw [Sound, if_pos hkey]
      exact exact_refuse_iff h r
    · rw [if_neg hkey] at hn
      rw [Sound, if_neg hkey]
      split_ifs at hn with hstarts
      · cases hn
        exact iff_of_true (exact_start h hkey) hstarts
      · cases hn
        exact iff_of_false (not_exact_failToStart h hkey) hstarts
  | ends future answer =>
    obtain ⟨t, ht, rfl⟩ := Option.map_eq_some_iff.mp hn
    exact iff_of_true (exact_giveBack hwf h (List.mem_of_find?_eq_some ht) answer) trivial
  | deliver future =>
    obtain ⟨answer, -, rfl⟩ := Option.map_eq_some_iff.mp hn
    exact iff_of_true ⟨h.held, h.single, h.refused⟩ trivial
  | timesOut future =>
    obtain ⟨r, -, rfl⟩ := Option.map_eq_some_iff.mp hn
    exact iff_of_true ⟨h.held, h.single, h.refused⟩ trivial

/-- Where it is exact, a key that nobody reads is free: the next read of it starts. -/
theorem next_read (h : Exact s) {r : SourceRead} (hidle : ∀ t ∈ s.threads, t.read.key ≠ r.key) :
    next s (.read r true) = some (s.start r) := by
  have hfree : r.key ∉ s.inflight := by
    intro hkey
    obtain ⟨t, ht, heq⟩ := (h.held _).mp hkey
    exact hidle t ht heq
  rw [next, if_neg hfree, if_pos rfl]

/-- Single flight is exact in every state of a run exactly if each of its steps is
sound. -/
theorem exact_iff_sound {tr : List (Runs.Taken State Act)} (h : Trace next init tr s) :
    (∀ t ∈ tr, Exact t.dst) ↔ ∀ t ∈ tr, Sound t.src t.act :=
  h.forall_iff exact_init fun _ _ _ hr hI hn => exact_next_iff (wellFormed_of_reachable hr) hI hn

/-! ## Runs -/

/-- The detail route's read of one prediction. -/
def predictionOf (id : String) : SourceRead :=
  ⟨"store", "console_prediction.<locals>.<lambda>", id⟩

theorem sound_init (r : SourceRead) : Sound init (.read r true) := by
  rw [Sound, if_neg (show r.key ∉ init.inflight from Finset.notMem_empty _)]

/-- One read, which times out and is answered after that. -/
def lateAnswer : List Act :=
  [.read (predictionOf "a") true, .timesOut 0, .ends 0 (.returned "row"), .deliver 0]

theorem lateAnswer_exact : ∃ tr s, Trace next init tr s ∧ tr.map Runs.Taken.act = lateAnswer ∧
    ∀ t ∈ tr, Exact t.dst := by
  have htrace : Trace next init _ _ :=
    ((((Trace.nil.snoc (.read (predictionOf "a") true) rfl).snoc (.timesOut 0) rfl).snoc
      (.ends 0 (.returned "row")) rfl).snoc (.deliver 0) rfl)
  refine ⟨_, _, htrace, rfl, (exact_iff_sound htrace).mpr ?_⟩
  intro t ht
  simp only [List.nil_append, List.cons_append, List.mem_cons, List.not_mem_nil, or_false] at ht
  rcases ht with rfl | rfl | rfl | rfl
  · exact sound_init _
  all_goals trivial

/-- A thread that does not start, and two requests for different predictions. -/
theorem flight_inexact :
    (∃ s, Runs.run next Runs.anyStep init [.read (predictionOf "a") false,
        .read (predictionOf "a") true] = some s ∧
      s.threads.length = 0 ∧ s.ended = [(predictionOf "a", none), (predictionOf "a", none)] ∧
      ¬ Exact s) ∧
    ∃ s, Runs.run next Runs.anyStep init [.read (predictionOf "a") true,
        .read (predictionOf "b") true] = some s ∧
      s.ended = [(predictionOf "b", none)] ∧ ¬ Exact s := by
  refine ⟨⟨_, rfl, rfl, rfl, fun h => ?_⟩, ⟨_, rfl, rfl, fun h => ?_⟩⟩
  · obtain ⟨t, ht, -⟩ := (h.held (predictionOf "a").key).mp (Finset.mem_insert_self ..)
    cases ht
  · have hrunning := h.refused _ List.mem_cons_self
    simp [predictionOf, State.start, init] at hrunning

end MlopsLite.Gateway.Console.SingleFlight
