import MlopsLite.Lib.Interleaving
import MlopsLite.Lib.Custody

/-!
# BoundedServer — permits, sockets and the linger table

`BoundedAgentServer` (`hostagent/main.py`) over `ThreadingMixIn`: the accept
loop, a worker thread per admitted connection, the linger reaper and
`graceful_shutdown`. A semaphore operation, a locked section, a socket call and
a `Thread.start` are each a step; starts, sends, half-closes and selects may
fail.
-/

namespace MlopsLite.HostAgent.BoundedServer

open Custody (Holder Ledger)

abbrev Conn := ℕ

/-- `maxConns` is `workers + queue_size`, `maxPending` is `_LINGER_MAX_PENDING`. -/
structure Config where
  maxWorkers : ℕ
  maxConns : ℕ
  maxPending : ℕ

inductive Thread
  | accept
  | worker (c : Conn)
  | reaper
  | shutdown
  deriving DecidableEq

/-- `_linger_thread`. -/
inductive LingerThread
  | none
  | unstarted
  | started
  deriving DecidableEq

/-! ## Who has what -/

/-- The socket of a connection, and its desk: whoever has it says whether the
connection has a permit and a slot. -/
inductive Token
  | socket (c : Conn)
  | desk (c : Conn)
  deriving DecidableEq

/-- Where a token lies that no thread has in hand: with a started thread that
has not begun to run, in the linger table, closed. -/
inductive Place
  | handed
  | table
  | closed
  deriving DecidableEq

/-- `permits`, `slots` and `inflight` count what is taken. The rest is history:
the connections accepted, those with a permit and with a slot, the sockets
closed, and who has what. -/
structure Shared where
  permits : ℕ
  slots : ℕ
  inflight : ℕ
  undrained : List Conn
  lingering : List Conn
  lingerThread : LingerThread
  handed : List Conn
  accepted : List Conn
  live : List Conn
  running : List Conn
  closed : List Conn
  own : Ledger Thread Token Place

/-- Where `_reject` and `_linger` are called: by the accept loop over its
bound, by a worker whose wait for a slot is over, by a worker at its end. -/
inductive Within
  | accept
  | refused
  | ending
  deriving DecidableEq

inductive Pc
  | idle
  | admitting (c : Conn)
  | starting (c : Conn)
  | refusing (w : Within) (c : Conn)
  | halfClosing (w : Within) (c : Conn)
  | lingering (w : Within) (c : Conn)
  | shutting (w : Within) (c : Conn)
  | waiting (c : Conn)
  | entering (c : Conn)
  | handling (c : Conn)
  | leaving (c : Conn)
  | releasing (c : Conn) (kept : Bool)
  | checking (c : Conn)
  | selecting (c : Conn)
  | finished (c : Conn)
  | polling (pending : List Conn)
  | settling (done : List Conn)
  | popped (c : Conn) (done : List Conn)
  | draining
  | taking
  | closingAll (stragglers : List Conn)

namespace Pc

/-- What a thread has in hand. -/
def hand : Pc → List Token
  | admitting c | starting c | waiting c | entering c | handling c | leaving c
  | refusing _ c | halfClosing _ c | lingering _ c | shutting _ c
  | checking c | selecting c | releasing c true => [.socket c, .desk c]
  | releasing c false | finished c => [.desk c]
  | popped c _ => [.socket c]
  | closingAll stragglers => stragglers.map .socket
  | idle | polling _ | settling _ | draining | taking => []

/-- The connection whose permit the thread has to return. -/
def permit : Pc → Option Conn
  | starting c | waiting c | entering c | handling c | leaving c | releasing c _
  | refusing .refused c | halfClosing .refused c | lingering .refused c | shutting .refused c =>
      some c
  | _ => none

/-- The connection whose slot the thread has. -/
def slot : Pc → Option Conn
  | entering c | handling c | leaving c => some c
  | _ => none

end Pc

inductive Choice
  | go
  | connect (c : Conn)
  | ok (b : Bool)
  | mark
  | pick (done : List Conn)

namespace Shared

variable (x : Shared)

def pass (k : Token) (h : Option (Holder Thread Place)) : Shared :=
  { x with own := Custody.give x.own k h }

/-- `shutdown_request`. -/
def close (c : Conn) : Shared :=
  { x.pass (.socket c) (some (.place .closed)) with closed := c :: x.closed }

/-- `_conn_slots.release()`. -/
def releasePermit (c : Conn) : Shared :=
  { x with permits := x.permits - 1, live := x.live.erase c }

/-- `_exec_slots.release()`. -/
def releaseSlot (c : Conn) : Shared :=
  { x with slots := x.slots - 1, running := x.running.erase c }

/-- The socket goes into the linger table. -/
def linger (c : Conn) : Shared :=
  { x.pass (.socket c) (some (.place .table)) with lingering := c :: x.lingering }

@[simp] theorem pass_socket (c d : Conn) (h : Option (Holder Thread Place)) :
    (x.pass (.socket c) h).own (.socket d) = if d = c then h else x.own (.socket d) := by
  simp [pass, Custody.give_apply]

@[simp] theorem pass_socket_desk (c d : Conn) (h : Option (Holder Thread Place)) :
    (x.pass (.socket c) h).own (.desk d) = x.own (.desk d) := by
  simp [pass, Custody.give_apply]

@[simp] theorem pass_desk (c d : Conn) (h : Option (Holder Thread Place)) :
    (x.pass (.desk c) h).own (.desk d) = if d = c then h else x.own (.desk d) := by
  simp [pass, Custody.give_apply]

@[simp] theorem pass_desk_socket (c d : Conn) (h : Option (Holder Thread Place)) :
    (x.pass (.desk c) h).own (.socket d) = x.own (.socket d) := by
  simp [pass, Custody.give_apply]

@[simp] theorem close_socket (c d : Conn) : (x.close c).own (.socket d) =
    if d = c then some (.place .closed) else x.own (.socket d) := pass_socket ..

@[simp] theorem close_desk (c d : Conn) : (x.close c).own (.desk d) = x.own (.desk d) :=
  x.pass_socket_desk c d (some (.place .closed))

@[simp] theorem linger_socket (c d : Conn) : (x.linger c).own (.socket d) =
    if d = c then some (.place .table) else x.own (.socket d) := pass_socket ..

@[simp] theorem linger_desk (c d : Conn) : (x.linger c).own (.desk d) = x.own (.desk d) :=
  x.pass_socket_desk c d (some (.place .table))

end Shared

/-- Where a thread goes once the socket is in the table or closed. A closed
socket is not selectable and closing it again does nothing. -/
def Within.rid (c : Conn) : Within → Pc
  | accept => .idle
  | refused => .releasing c false
  | ending => .finished c

/-- The accept loop is done with the connection. -/
def Within.letGo (x : Shared) (c : Conn) : Within → Shared
  | accept => x.pass (.desk c) none
  | _ => x

/-- After `_linger` raised: the server's own handler closes the socket, the
worker's goes to its end, and at its end nobody does. -/
def Within.raised (c : Conn) : Within → Pc
  | accept => .shutting .accept c
  | refused => .releasing c true
  | ending => .finished c

variable (cfg : Config)

/-- The locked section of `_linger`; `ok` is whether the reaper starts. -/
def lingerSection (ok : Bool) (x : Shared) (w : Within) (c : Conn) : Shared × Pc :=
  if cfg.maxPending ≤ x.lingering.length then (x, .shutting w c)
  else if x.lingerThread = .none then
    if ok then (w.letGo { x.linger c with lingerThread := .started } c, w.rid c)
    else ({ x with lingerThread := .unstarted }, w.raised c)
  else (w.letGo (x.linger c) c, w.rid c)

/-- `_reject`, `_linger` and `shutdown_request`. -/
def refuse (choice : Choice) (x : Shared) (k : Pc) : Option (Shared × Pc) :=
  match k, choice with
  | .refusing w c, .ok sent => some (x, if sent then .halfClosing w c else .shutting w c)
  | .halfClosing w c, .ok halved => some (x, if halved then .lingering w c else .shutting w c)
  | .lingering w c, .ok started => some (lingerSection cfg started x w c)
  | .shutting w c, .go => some (w.letGo (x.close c) c, w.rid c)
  | _, _ => none

/-- The accept loop: `process_request` and its caller. -/
def acceptLoop (choice : Choice) (x : Shared) (k : Pc) : Option (Shared × Pc) :=
  match k, choice with
  | .idle, .connect c =>
      if c ∈ x.accepted then none
      else
        let x' := (x.pass (.socket c) (some (.thread .accept))).pass (.desk c)
          (some (.thread .accept))
        some ({ x' with accepted := c :: x.accepted }, .admitting c)
  | .admitting c, .go =>
      if x.permits < cfg.maxConns then
        some ({ x with permits := x.permits + 1, live := c :: x.live }, .starting c)
      else some (x, .refusing .accept c)
  | .starting c, .ok started =>
      if started then
        let x' := (x.pass (.socket c) (some (.place .handed))).pass (.desk c)
          (some (.place .handed))
        some ({ x' with handed := c :: x.handed }, .idle)
      -- no worker: the caller closes the socket, the permit stays taken
      else some ({ x with live := x.live.erase c }, .shutting .accept c)
  | k, choice => refuse cfg choice x k

/-- `process_request_thread`. -/
def worker (d : Conn) (choice : Choice) (x : Shared) (k : Pc) : Option (Shared × Pc) :=
  match k, choice with
  | .idle, .go =>
      if d ∈ x.handed then
        let x' := (x.pass (.socket d) (some (.thread (.worker d)))).pass (.desk d)
          (some (.thread (.worker d)))
        some ({ x' with handed := x.handed.erase d }, .waiting d)
      else none
  | .waiting c, .ok acquired =>
      if acquired then
        if x.slots < cfg.maxWorkers then
          some ({ x with slots := x.slots + 1, running := c :: x.running }, .entering c)
        else none
      else some (x, .refusing .refused c)
  | .entering c, .go => some ({ x with inflight := x.inflight + 1 }, .handling c)
  | .handling c, .mark => some ({ x with undrained := x.undrained.insert c }, .handling c)
  | .handling c, .go => some ({ x with inflight := x.inflight - 1 }, .leaving c)
  | .leaving c, .go => some (x.releaseSlot c, .releasing c true)
  | .releasing c kept, .go => some (x.releasePermit c, if kept then .checking c else .finished c)
  | .checking c, .go =>
      some ({ x with undrained := x.undrained.erase c },
        if c ∈ x.undrained then .halfClosing .ending c else .selecting c)
  | .selecting c, .ok readable =>
      some (x, if readable then .halfClosing .ending c else .shutting .ending c)
  | k, choice => refuse cfg choice x k

/-- `_reap_lingering`; which sockets are done is up to their peers and the clock. -/
def reaper (choice : Choice) (x : Shared) (k : Pc) : Option (Shared × Pc) :=
  match k, choice with
  | .idle, .go =>
      if x.lingerThread = .started then
        if x.lingering = [] then some ({ x with lingerThread := .none }, .idle)
        else some (x, .polling x.lingering)
      else none
  | .polling pending, .pick done =>
      if done ⊆ pending ∧ done.Nodup then some (x, .settling done) else none
  | .settling (c :: done), .go =>
      -- `pop(sock, None)`
      if c ∈ x.lingering then
        some ({ x.pass (.socket c) (some (.thread .reaper)) with
          lingering := x.lingering.erase c }, .popped c done)
      else some (x, .popped c done)
  | .settling [], .go => some (x, .idle)
  | .popped c done, .go => some (x.close c, .settling done)
  | _, _ => none

def takeAll (x : Shared) : Shared :=
  { x with
    lingering := []
    own := fun k =>
      match k with
      | .socket c => if c ∈ x.lingering then some (.thread .shutdown) else x.own k
      | k => x.own k }

/-- `graceful_shutdown`, up to the unloading of the engines. -/
def gracefulShutdown (choice : Choice) (x : Shared) (k : Pc) : Option (Shared × Pc) :=
  match k, choice with
  | .idle, .go => some (x, .draining)
  | .draining, .ok deadline => if deadline ∨ x.inflight = 0 then some (x, .taking) else none
  | .taking, .go => some (takeAll x, .closingAll x.lingering)
  | .closingAll (c :: rest), .go => some (x.close c, .closingAll rest)
  | .closingAll [], .go => some (x, .idle)
  | _, _ => none

def advance : Interleaving.Program Thread Shared Pc Choice := fun t choice x k =>
  match t with
  | .accept => acceptLoop cfg choice x k
  | .worker d => worker cfg d choice x k
  | .reaper => reaper choice x k
  | .shutdown => gracefulShutdown choice x k

abbrev Sys := Interleaving.State Thread Shared Pc

abbrev Act := Thread × Choice

abbrev next : Sys → Act → Option Sys := Interleaving.next (advance cfg)

def Sys.init : Sys :=
  ⟨⟨0, 0, 0, [], [], .none, [], [], [], [], [], fun _ => none⟩, fun _ => .idle⟩

/-! ## What is asked -/

/-- A party has the socket: a thread in hand, or it lies in a place. -/
def HasSocket (s : Sys) (c : Conn) : Holder Thread Place → Prop
  | .thread t => .socket c ∈ (s.pc t).hand
  | .place .handed => c ∈ s.shared.handed
  | .place .table => c ∈ s.shared.lingering
  | .place .closed => c ∈ s.shared.closed

/-- The connection has a worker, not yet begun or not yet finished, or is about to get one. -/
def Admitted (s : Sys) (c : Conn) : Prop :=
  c ∈ s.shared.handed ∨ ∃ t, (s.pc t).permit = some c

structure Accounted (s : Sys) : Prop where
  permits : ∃ live : List Conn, live.Nodup ∧ (∀ c, c ∈ live ↔ Admitted s c) ∧
    s.shared.permits = live.length
  handlers : ∃ busy : List Thread, busy.length ≤ cfg.maxWorkers ∧
    ∀ t c, s.pc t = .handling c → t ∈ busy
  custody : ∀ c ∈ s.shared.accepted, ∃! p, HasSocket s c p
  bound : s.shared.lingering.length ≤ cfg.maxPending
  reaper : s.shared.lingering ≠ [] → s.shared.lingerThread = .started

/-- Accounted for in every state of every run. -/
def ServesAccounted (ok : Sys → Act → Prop) : Prop :=
  ∀ s, Runs.Reachable (next cfg) ok Sys.init s → Accounted cfg s

/-- Threads start, and the socket the reaper settles is still in the table:
`graceful_shutdown` has not taken it in between. -/
def Orderly (s : Sys) (a : Act) : Prop :=
  match s.pc a.1, a.2 with
  | .starting _, .ok started => started = true
  | .lingering _ _, .ok started =>
      s.shared.lingering.length < cfg.maxPending → s.shared.lingerThread = .none → started = true
  | .settling (c :: _), .go => c ∈ s.shared.lingering
  | _, _ => True

/-! ## The invariant -/

/-- The lists and the ledger agree; so do the counts and the lists. -/
structure Inv (x : Shared) : Prop where
  accepted : ∀ c, c ∈ x.accepted ↔ x.own (.socket c) ≠ none
  desk : ∀ c, x.own (.desk c) ≠ none → c ∈ x.accepted
  handed : ∀ c, c ∈ x.handed ↔ x.own (.socket c) = some (.place .handed)
  handedDesk : ∀ c, c ∈ x.handed ↔ x.own (.desk c) = some (.place .handed)
  table : ∀ c, c ∈ x.lingering ↔ x.own (.socket c) = some (.place .table)
  closed : ∀ c, c ∈ x.closed ↔ x.own (.socket c) = some (.place .closed)
  handedNodup : x.handed.Nodup
  tableNodup : x.lingering.Nodup
  liveNodup : x.live.Nodup
  runningNodup : x.running.Nodup
  handedLive : ∀ c ∈ x.handed, c ∈ x.live ∧ c ∉ x.running
  liveDesk : ∀ c ∈ x.live, ∃ p, x.own (.desk c) = some p ∧ ∀ q, p = .place q → q = .handed
  runningDesk : ∀ c ∈ x.running, x.own (.desk c) ≠ none
  permits : x.permits = x.live.length
  slots : x.slots = x.running.length
  slotsBound : x.running.length ≤ cfg.maxWorkers
  bound : x.lingering.length ≤ cfg.maxPending
  starts : x.lingerThread ≠ .unstarted
  reaper : x.lingering ≠ [] → x.lingerThread = .started

/-- Who has the desk of a connection knows whether it has a permit and a slot. -/
structure Local (t : Thread) (x : Shared) (k : Pc) : Prop where
  exact : Custody.Exact x.own t k.hand
  nodup : k.hand.Nodup
  permit : ∀ c, .desk c ∈ k.hand → (c ∈ x.live ↔ k.permit = some c)
  slot : ∀ c, .desk c ∈ k.hand → (c ∈ x.running ↔ k.slot = some c)
  worker : ∀ c, .desk c ∈ k.hand → t = .worker c ∨ t = .accept ∧ k.slot = none

/-- What a step of `t` leaves to the others. -/
structure Leaves (t : Thread) (x x' : Shared) : Prop where
  passes : Custody.Passes t x.own x'.own
  live : ∀ u c, u ≠ t → x.own (.desk c) = some (.thread u) → (c ∈ x'.live ↔ c ∈ x.live)
  running : ∀ u c, u ≠ t → x.own (.desk c) = some (.thread u) → (c ∈ x'.running ↔ c ∈ x.running)

/-- What a step has to establish. -/
structure Kept (t : Thread) (x x' : Shared) (k' : Pc) : Prop where
  inv : Inv cfg x'
  own : Local t x' k'
  others : Leaves t x x'

section

variable {cfg : Config} {t u : Thread} {c : Conn} {x x' x'' : Shared} {k k' : Pc}

theorem Leaves.refl : Leaves t x x :=
  ⟨Custody.Passes.refl, fun _ _ _ _ => Iff.rfl, fun _ _ _ _ => Iff.rfl⟩

theorem Leaves.trans (h : Leaves t x x') (h' : Leaves t x' x'') : Leaves t x x'' where
  passes := h.passes.trans h'.passes
  live u c hu hc :=
    (h'.live u c hu ((h.passes u hu _).mpr hc)).trans (h.live u c hu hc)
  running u c hu hc :=
    (h'.running u c hu ((h.passes u hu _).mpr hc)).trans (h.running u c hu hc)

theorem Leaves.of_passes (h : Custody.Passes t x.own x'.own) (hl : x'.live = x.live)
    (hr : x'.running = x.running) : Leaves t x x' :=
  ⟨h, fun _ _ _ _ => by rw [hl], fun _ _ _ _ => by rw [hr]⟩

theorem Local.stable (h : Local u x k) (hl : Leaves t x x') (hu : u ≠ t) : Local u x' k where
  exact := h.exact.passes hl.passes hu
  nodup := h.nodup
  permit c hc := (hl.live u c hu ((h.exact _).mp hc)).trans (h.permit c hc)
  slot c hc := (hl.running u c hu ((h.exact _).mp hc)).trans (h.slot c hc)
  worker := h.worker

theorem Local.has (h : Local t x k) {j : Token} (hj : j ∈ k.hand) : x.own j = some (.thread t) :=
  (h.exact j).mp hj

/-- The desk of a connection is where its permit has to be returned. -/
theorem Pc.desk_of_permit (h : k.permit = some c) : .desk c ∈ k.hand := by
  cases k <;> simp_all [Pc.permit, Pc.hand] <;> grind

theorem Pc.desk_of_slot (h : k.slot = some c) : .desk c ∈ k.hand := by
  cases k <;> simp_all [Pc.slot, Pc.hand]

/-- A connection whose desk another thread has is not the one in hand. -/
theorem Local.other_desk (h : Local t x k) (hc : .desk c ∈ k.hand) {d : Conn} (hu : u ≠ t)
    (hd : x.own (.desk d) = some (.thread u)) : d ≠ c := by
  intro heq
  subst heq
  exact h.exact.not_other hc u hu hd

/-! ## Moves -/

/-- The counters and marks no invariant is about. -/
theorem Kept.tally (hx : Inv cfg x) (hk : Local t x k) {i : ℕ} {marks : List Conn}
    (hh : k'.hand = k.hand) (hp : k'.permit = k.permit) (hs : k'.slot = k.slot) :
    Kept cfg t x { x with inflight := i, undrained := marks } k' where
  inv := { hx with }
  own := by
    refine ⟨?_, ?_, ?_, ?_, ?_⟩
    · rw [hh]; exact hk.exact
    · rw [hh]; exact hk.nodup
    · rw [hh, hp]; exact hk.permit
    · rw [hh, hs]; exact hk.slot
    · rw [hh, hs]; exact hk.worker
  others := Leaves.of_passes Custody.Passes.refl rfl rfl

theorem Kept.same (hx : Inv cfg x) (hk : Local t x k) (hh : k'.hand = k.hand)
    (hp : k'.permit = k.permit) (hs : k'.slot = k.slot) : Kept cfg t x x k' :=
  Kept.tally hx hk hh hp hs

theorem Kept.trans (h : Kept cfg t x x' k) (h' : Kept cfg t x' x'' k') : Kept cfg t x x'' k' :=
  ⟨h'.inv, h'.own, h.others.trans h'.others⟩

/-- A token the thread has goes to a place, or to nobody. -/
theorem Local.passed (hk : Local t x k) {j : Token} {p : Option (Holder Thread Place)}
    (hh : k.hand = j :: k'.hand) (hp : k'.permit = k.permit) (hs : k'.slot = k.slot)
    (hown : x'.own = Custody.give x.own j p) (hlive : x'.live = x.live)
    (hrun : x'.running = x.running) (ht : ∀ u, p ≠ some (.thread u)) :
    Local t x' k' ∧ Leaves t x x' := by
  have hnodup : (j :: k'.hand).Nodup := hh ▸ hk.nodup
  have hmem : ∀ i, i ∈ k'.hand → i ∈ k.hand := by
    intro i hi
    rw [hh]
    exact List.mem_cons_of_mem j hi
  have hj : j ∈ k.hand := by simp [hh]
  have hexact : Custody.Exact x.own t (j :: k'.hand) := hh ▸ hk.exact
  constructor
  · refine ⟨?_, hnodup.of_cons, ?_, ?_, ?_⟩
    · rw [hown]
      exact hexact.drop (List.nodup_cons.mp hnodup).1 (ht t)
    · intro c hc
      rw [hlive, hp]
      exact hk.permit c (hmem _ hc)
    · intro c hc
      rw [hrun, hs]
      exact hk.slot c (hmem _ hc)
    · intro c hc
      rw [hs]
      exact hk.worker c (hmem _ hc)
  · refine Leaves.of_passes ?_ hlive hrun
    rw [hown]
    exact Custody.Passes.give (hk.exact.not_other hj) fun u _ => ht u

/-- A socket in hand is closed. -/
theorem Inv.close (hx : Inv cfg x) (hc : x.own (.socket c) = some (.thread t)) :
    Inv cfg (x.close c) :=
  { hx with
    accepted := fun d => by
      rw [Shared.close_socket]
      have := hx.accepted d
      grind [Shared.close, Shared.pass]
    desk := fun d => by
      rw [Shared.close_desk]
      exact hx.desk d
    handed := fun d => by
      rw [Shared.close_socket]
      have := hx.handed d
      grind [Shared.close, Shared.pass]
    handedDesk := fun d => by
      rw [Shared.close_desk]
      exact hx.handedDesk d
    table := fun d => by
      rw [Shared.close_socket]
      have := hx.table d
      grind [Shared.close, Shared.pass]
    closed := fun d => by
      rw [Shared.close_socket]
      have := hx.closed d
      grind [Shared.close, Shared.pass] }

/-- A socket in hand goes into the table. -/
theorem Inv.linger (hx : Inv cfg x) (hc : x.own (.socket c) = some (.thread t))
    (hroom : x.lingering.length < cfg.maxPending) :
    Inv cfg { x.linger c with lingerThread := .started } := by
  have hfresh : c ∉ x.lingering := by
    intro hmem
    have hplace := (hx.table c).mp hmem
    rw [hc] at hplace
    cases hplace
  refine { hx with
    accepted := fun d => ?_
    desk := fun d => ?_
    handed := fun d => ?_
    handedDesk := fun d => ?_
    table := fun d => ?_
    closed := fun d => ?_
    tableNodup := List.nodup_cons.mpr ⟨hfresh, hx.tableNodup⟩
    liveDesk := fun d hd => ?_
    runningDesk := fun d hd => ?_
    bound := hroom
    starts := by simp
    reaper := by simp }
  · have := hx.accepted d
    simp only [Shared.linger_socket]
    grind [Shared.linger, Shared.pass]
  · simp only [Shared.linger_desk]
    exact hx.desk d
  · have := hx.handed d
    simp only [Shared.linger_socket]
    grind [Shared.linger, Shared.pass]
  · simp only [Shared.linger_desk]
    exact hx.handedDesk d
  · have := hx.table d
    simp only [Shared.linger_socket]
    grind [Shared.linger, Shared.pass]
  · have := hx.closed d
    simp only [Shared.linger_socket]
    grind [Shared.linger, Shared.pass]
  · simp only [Shared.linger_desk]
    exact hx.liveDesk d hd
  · simp only [Shared.linger_desk]
    exact hx.runningDesk d hd

theorem Kept.close (hx : Inv cfg x) (hk : Local t x k) (hh : k.hand = .socket c :: k'.hand)
    (hp : k'.permit = k.permit) (hs : k'.slot = k.slot) : Kept cfg t x (x.close c) k' := by
  obtain ⟨hown, hothers⟩ : Local t (x.close c) k' ∧ Leaves t x (x.close c) :=
    hk.passed hh hp hs rfl rfl rfl (by simp)
  exact ⟨hx.close (hk.has (by simp [hh])), hown, hothers⟩

theorem Kept.linger (hx : Inv cfg x) (hk : Local t x k)
    (hroom : x.lingering.length < cfg.maxPending) (hh : k.hand = .socket c :: k'.hand)
    (hp : k'.permit = k.permit) (hs : k'.slot = k.slot) :
    Kept cfg t x { x.linger c with lingerThread := .started } k' := by
  obtain ⟨hown, hothers⟩ : Local t { x.linger c with lingerThread := .started } k' ∧
      Leaves t x { x.linger c with lingerThread := .started } :=
    hk.passed hh hp hs rfl rfl rfl (by simp)
  exact ⟨hx.linger (hk.has (by simp [hh])) hroom, hown, hothers⟩

/-- The accept loop is done with a connection that has no permit. -/
theorem Kept.letGo (hx : Inv cfg x) (hk : Local t x k) (hh : k.hand = .desk c :: k'.hand)
    (hp : k'.permit = k.permit) (hs : k'.slot = k.slot) (hnone : k.permit = none)
    (hidle : k.slot = none) :
    Kept cfg t x (x.pass (.desk c) none) k' := by
  have hc : .desk c ∈ k.hand := by simp [hh]
  have hlive : c ∉ x.live := by
    rw [hk.permit c hc, hnone]
    simp
  have hrunning : c ∉ x.running := by
    rw [hk.slot c hc, hidle]
    simp
  have hdesk := hk.has hc
  obtain ⟨hown, hothers⟩ : Local t (x.pass (.desk c) none) k' ∧ Leaves t x (x.pass (.desk c) none) :=
    hk.passed hh hp hs rfl rfl rfl (by simp)
  refine ⟨{ hx with
    accepted := fun d => ?_
    desk := fun d hd => ?_
    handed := fun d => ?_
    handedDesk := fun d => ?_
    table := fun d => ?_
    closed := fun d => ?_
    liveDesk := fun d hd => ?_
    runningDesk := fun d hd => ?_ }, hown, hothers⟩
  · rw [Shared.pass_desk_socket]
    exact hx.accepted d
  · have := hx.desk d
    rw [Shared.pass_desk] at hd
    grind [Shared.pass]
  · rw [Shared.pass_desk_socket]
    exact hx.handed d
  · have := hx.handedDesk d
    rw [Shared.pass_desk]
    grind [Shared.pass]
  · rw [Shared.pass_desk_socket]
    exact hx.table d
  · rw [Shared.pass_desk_socket]
    exact hx.closed d
  · have := hx.liveDesk d hd
    rw [Shared.pass_desk]
    grind [Shared.pass]
  · have := hx.runningDesk d hd
    rw [Shared.pass_desk]
    grind [Shared.pass]

/-- Permits and slots come and go at the desk in hand only. -/
theorem Leaves.of_desk (hk : Local t x k) (hc : .desk c ∈ k.hand) (hown : x'.own = x.own)
    (hlive : ∀ d, d ≠ c → (d ∈ x'.live ↔ d ∈ x.live))
    (hrun : ∀ d, d ≠ c → (d ∈ x'.running ↔ d ∈ x.running)) : Leaves t x x' where
  passes := by
    rw [hown]
    exact Custody.Passes.refl
  live _ d hu hd := hlive d (hk.other_desk hc hu hd)
  running _ d hu hd := hrun d (hk.other_desk hc hu hd)

/-- A connection has one desk, and a thread with a permit or a slot has one
connection. -/
theorem Local.at_desk (hk : Local t x k) (hh : k'.hand = k.hand)
    (hone : ∀ d, .desk d ∈ k.hand → d = c) (hown : x'.own = x.own)
    (hlive : c ∈ x'.live ↔ k'.permit = some c) (hrun : c ∈ x'.running ↔ k'.slot = some c)
    (hw : t = .worker c ∨ t = .accept ∧ k'.slot = none) : Local t x' k' where
  exact := by
    rw [hown, hh]
    exact hk.exact
  nodup := hh ▸ hk.nodup
  permit d hd := by
    obtain rfl := hone d (hh ▸ hd)
    exact hlive
  slot d hd := by
    obtain rfl := hone d (hh ▸ hd)
    exact hrun
  worker d hd := by
    obtain rfl := hone d (hh ▸ hd)
    exact hw

theorem Kept.admit (hx : Inv cfg x) (hk : Local .accept x (.admitting c)) :
    Kept cfg .accept x { x with permits := x.permits + 1, live := c :: x.live } (.starting c) := by
  have hc : .desk c ∈ (Pc.admitting c).hand := by simp [Pc.hand]
  have hdesk := hk.has hc
  have hlive : c ∉ x.live := by simp [hk.permit c hc, Pc.permit]
  have hrunning : c ∉ x.running := by simp [hk.slot c hc, Pc.slot]
  refine ⟨?_, ?_, ?_⟩
  · refine { hx with
      liveNodup := List.nodup_cons.mpr ⟨hlive, hx.liveNodup⟩
      handedLive := fun d hd => ?_
      liveDesk := fun d hd => ?_
      permits := by simp [hx.permits] }
    · obtain ⟨hl, hr⟩ := hx.handedLive d hd
      exact ⟨List.mem_cons_of_mem c hl, hr⟩
    · rcases List.mem_cons.mp hd with rfl | hd
      · exact ⟨_, hdesk, by simp⟩
      · exact hx.liveDesk d hd
  · refine hk.at_desk (c := c) rfl (by simp [Pc.hand]) rfl ?_ ?_ (.inr ⟨rfl, rfl⟩)
    · simp [Pc.permit]
    · simp [Pc.slot, hrunning]
  · refine Leaves.of_desk hk hc rfl (fun d hd => ?_) fun _ _ => Iff.rfl
    simp [hd]

theorem Kept.acquireSlot (hx : Inv cfg x) (hk : Local (.worker c) x (.waiting c))
    (hroom : x.slots < cfg.maxWorkers) :
    Kept cfg (.worker c) x { x with slots := x.slots + 1, running := c :: x.running }
      (.entering c) := by
  have hc : .desk c ∈ (Pc.waiting c).hand := by simp [Pc.hand]
  have hdesk := hk.has hc
  have hlive : c ∈ x.live := by simp [hk.permit c hc, Pc.permit]
  have hrunning : c ∉ x.running := by simp [hk.slot c hc, Pc.slot]
  refine ⟨?_, ?_, ?_⟩
  · refine { hx with
      runningNodup := List.nodup_cons.mpr ⟨hrunning, hx.runningNodup⟩
      handedLive := fun d hd => ?_
      runningDesk := fun d hd => ?_
      slots := by simp [hx.slots]
      slotsBound := by simpa [← hx.slots] using hroom }
    · obtain ⟨hl, hr⟩ := hx.handedLive d hd
      refine ⟨hl, ?_⟩
      rw [List.mem_cons]
      rintro (rfl | hmem)
      · rw [(hx.handedDesk d).mp hd] at hdesk
        cases hdesk
      · exact hr hmem
    · rcases List.mem_cons.mp hd with rfl | hd
      · simp [hdesk]
      · exact hx.runningDesk d hd
  · refine hk.at_desk (c := c) rfl (by simp [Pc.hand]) rfl ?_ ?_ (.inl rfl)
    · simp [Pc.permit, hlive]
    · simp [Pc.slot]
  · refine Leaves.of_desk hk hc rfl (fun _ _ => Iff.rfl) fun d hd => ?_
    simp [hd]

theorem Kept.releaseSlot (hx : Inv cfg x) (hk : Local t x (.leaving c)) :
    Kept cfg t x (x.releaseSlot c) (.releasing c true) := by
  have hc : .desk c ∈ (Pc.leaving c).hand := by simp [Pc.hand]
  have hlive : c ∈ x.live := by simp [hk.permit c hc, Pc.permit]
  have hrunning : c ∈ x.running := by simp [hk.slot c hc, Pc.slot]
  have hlength := List.length_erase_of_mem hrunning
  refine ⟨?_, ?_, ?_⟩
  · refine { hx with
      runningNodup := hx.runningNodup.erase c
      handedLive := fun d hd => ?_
      runningDesk := fun d hd => hx.runningDesk d (List.mem_of_mem_erase hd)
      slots := ?_
      slotsBound := ?_ }
    · obtain ⟨hl, hr⟩ := hx.handedLive d hd
      exact ⟨hl, fun hmem => hr (List.mem_of_mem_erase hmem)⟩
    · simp [Shared.releaseSlot, hlength, hx.slots]
    · have := hx.slotsBound
      simp only [Shared.releaseSlot, hlength]
      omega
  · refine hk.at_desk (c := c) rfl (by simp [Pc.hand]) rfl ?_ ?_ ((hk.worker c hc).imp_right ?_)
    · simp [Pc.permit, Shared.releaseSlot, hlive]
    · simp [Pc.slot, Shared.releaseSlot, hx.runningNodup.mem_erase_iff]
    · simp [Pc.slot]
  · refine Leaves.of_desk hk hc rfl (fun _ _ => Iff.rfl) fun d hd => ?_
    simp [Shared.releaseSlot, hx.runningNodup.mem_erase_iff, hd]

/-- At the end of a worker, whether or not the socket is still its own. -/
theorem Kept.releasePermit {kept : Bool} (hx : Inv cfg x) (hk : Local t x (.releasing c kept)) :
    Kept cfg t x (x.releasePermit c) (if kept then .checking c else .finished c) := by
  have hc : .desk c ∈ (Pc.releasing c kept).hand := by cases kept <;> simp [Pc.hand]
  have hlive : c ∈ x.live := by simp [hk.permit c hc, Pc.permit]
  have hrunning : c ∉ x.running := by simp [hk.slot c hc, Pc.slot]
  have hdesk := hk.has hc
  have hlength := List.length_erase_of_mem hlive
  refine ⟨?_, ?_, ?_⟩
  · refine { hx with
      liveNodup := hx.liveNodup.erase c
      handedLive := fun d hd => ?_
      liveDesk := fun d hd => hx.liveDesk d (List.mem_of_mem_erase hd)
      permits := ?_ }
    · obtain ⟨hl, hr⟩ := hx.handedLive d hd
      refine ⟨(List.mem_erase_of_ne ?_).mpr hl, hr⟩
      rintro rfl
      rw [(hx.handedDesk d).mp hd] at hdesk
      cases hdesk
    · simp [Shared.releasePermit, hlength, hx.permits]
  · refine hk.at_desk (c := c) ?_ ?_ rfl ?_ ?_ ?_
    · cases kept <;> rfl
    · cases kept <;> simp [Pc.hand]
    · cases kept <;> simp [Pc.permit, Shared.releasePermit, hx.liveNodup.mem_erase_iff]
    · cases kept <;> simp [Pc.slot, Shared.releasePermit, hrunning]
    · have := hk.worker c hc
      cases kept <;> simpa [Pc.slot] using this
  · refine Leaves.of_desk hk hc rfl (fun d hd => ?_) fun _ _ => Iff.rfl
    simp [Shared.releasePermit, hx.liveNodup.mem_erase_iff, hd]

/-- The socket and the desk of a connection change hands together. -/
theorem Inv.both (hx : Inv cfg x) {p : Holder Thread Place} {accepted handed : List Conn}
    (hs : ∀ q, x.own (.socket c) = some (.place q) → q = .handed)
    (hp : ∀ q, p = .place q → q = .handed)
    (hacc : ∀ d, d ∈ accepted ↔ d = c ∨ d ∈ x.accepted)
    (hhand : ∀ d, d ∈ handed ↔ if d = c then p = .place .handed else d ∈ x.handed)
    (hnodup : handed.Nodup) (hlive : ∀ d ∈ handed, d ∈ x.live ∧ d ∉ x.running) :
    Inv cfg { (x.pass (.socket c) (some p)).pass (.desk c) (some p) with
      accepted := accepted
      handed := handed } := by
  refine { hx with
    accepted := fun d => ?_
    desk := fun d hd => ?_
    handed := fun d => ?_
    handedDesk := fun d => ?_
    table := fun d => ?_
    closed := fun d => ?_
    handedNodup := hnodup
    handedLive := hlive
    liveDesk := fun d hd => ?_
    runningDesk := fun d hd => ?_ }
  · have := hx.accepted d
    rw [Shared.pass_desk_socket, Shared.pass_socket]
    grind
  · have := hx.desk d
    rw [Shared.pass_desk, Shared.pass_socket_desk] at hd
    grind
  · have := hx.handed d
    rw [Shared.pass_desk_socket, Shared.pass_socket]
    grind
  · have := hx.handedDesk d
    rw [Shared.pass_desk, Shared.pass_socket_desk]
    grind
  · have := hx.table d
    rw [Shared.pass_desk_socket, Shared.pass_socket]
    grind [Shared.pass]
  · have := hx.closed d
    rw [Shared.pass_desk_socket, Shared.pass_socket]
    grind [Shared.pass]
  · have := hx.liveDesk d hd
    rw [Shared.pass_desk, Shared.pass_socket_desk]
    grind
  · have := hx.runningDesk d hd
    rw [Shared.pass_desk, Shared.pass_socket_desk]
    grind

theorem Leaves.both {p : Holder Thread Place} {accepted handed : List Conn}
    (hs : ∀ u, u ≠ t → x.own (.socket c) ≠ some (.thread u))
    (hd : ∀ u, u ≠ t → x.own (.desk c) ≠ some (.thread u))
    (hp : ∀ u, u ≠ t → p ≠ .thread u) :
    Leaves t x { (x.pass (.socket c) (some p)).pass (.desk c) (some p) with
      accepted := accepted
      handed := handed } := by
  have hp' : ∀ u, u ≠ t → some p ≠ some (Holder.thread u) := by
    intro u hu
    simpa using hp u hu
  refine Leaves.of_passes ((Custody.Passes.give hs hp').trans (Custody.Passes.give ?_ hp')) rfl rfl
  simpa [Custody.give_apply] using hd

/-- A thread that had nothing in hand has taken both. -/
theorem Local.both {accepted handed : List Conn} (hk : Local t x k) (hhand : k.hand = [])
    (hhand' : k'.hand = [.socket c, .desk c]) (hlive : c ∈ x.live ↔ k'.permit = some c)
    (hrun : c ∈ x.running ↔ k'.slot = some c) (hw : t = .worker c ∨ t = .accept ∧ k'.slot = none) :
    Local t { (x.pass (.socket c) (some (.thread t))).pass (.desk c) (some (.thread t)) with
      accepted := accepted
      handed := handed } k' := by
  have hexact : Custody.Exact x.own t [] := hhand ▸ hk.exact
  refine ⟨?_, by simp [hhand'], ?_, ?_, ?_⟩
  · exact (hexact.take.take).of_mem_iff fun j => by simp [hhand', or_comm]
  · intro d hd
    obtain rfl : d = c := by simpa [hhand'] using hd
    exact hlive
  · intro d hd
    obtain rfl : d = c := by simpa [hhand'] using hd
    exact hrun
  · intro d hd
    obtain rfl : d = c := by simpa [hhand'] using hd
    exact hw

/-- A new connection is with the accept loop. -/
theorem Kept.connect (hx : Inv cfg x) (hk : Local .accept x .idle) (hfresh : c ∉ x.accepted) :
    Kept cfg .accept x
      { (x.pass (.socket c) (some (.thread .accept))).pass (.desk c) (some (.thread .accept)) with
        accepted := c :: x.accepted }
      (.admitting c) := by
  have hsocket : x.own (.socket c) = none := by
    by_contra hne
    exact hfresh ((hx.accepted c).mpr hne)
  have hdesk : x.own (.desk c) = none := by
    by_contra hne
    exact hfresh (hx.desk c hne)
  have hlive : c ∉ x.live := by
    intro hmem
    obtain ⟨p, hp, -⟩ := hx.liveDesk c hmem
    simp [hdesk] at hp
  have hrunning : c ∉ x.running := fun hmem => hx.runningDesk c hmem hdesk
  have hhanded : c ∉ x.handed := by
    rw [hx.handed c, hsocket]
    simp
  refine ⟨?_, ?_, ?_⟩
  · refine hx.both (by simp [hsocket]) (by simp) (by simp) ?_ hx.handedNodup hx.handedLive
    intro d
    grind [Shared.pass]
  · refine hk.both rfl rfl ?_ ?_ (.inr ⟨rfl, rfl⟩)
    · simp [Pc.permit, hlive]
    · simp [Pc.slot, hrunning]
  · refine Leaves.both (by simp [hsocket]) (by simp [hdesk]) ?_
    intro u hu
    simp [Ne.symm hu]

/-- The worker is started; it has not begun to run. -/
theorem Kept.handOver (hx : Inv cfg x) (hk : Local .accept x (.starting c)) :
    Kept cfg .accept x
      { (x.pass (.socket c) (some (.place .handed))).pass (.desk c) (some (.place .handed)) with
        handed := c :: x.handed }
      .idle := by
  have hc : .desk c ∈ (Pc.starting c).hand := by simp [Pc.hand]
  have hs : .socket c ∈ (Pc.starting c).hand := by simp [Pc.hand]
  have hsocket := hk.has hs
  have hlive : c ∈ x.live := by simp [hk.permit c hc, Pc.permit]
  have hrunning : c ∉ x.running := by simp [hk.slot c hc, Pc.slot]
  have haccepted : c ∈ x.accepted := by simp [hx.accepted c, hsocket]
  have hhanded : c ∉ x.handed := by
    rw [hx.handed c, hsocket]
    simp
  refine ⟨?_, ?_, ?_⟩
  · refine hx.both (by simp [hsocket]) (by simp) ?_ ?_ (List.nodup_cons.mpr ⟨hhanded, hx.handedNodup⟩)
      ?_
    · intro d
      grind [Shared.pass]
    · intro d
      grind
    · intro d hd
      rcases List.mem_cons.mp hd with rfl | hd
      · exact ⟨hlive, hrunning⟩
      · exact hx.handedLive d hd
  · have hone : Custody.Exact (Custody.give x.own (.socket c) (some (.place .handed))) .accept
        [.desk c] := hk.exact.drop (by simp) (by simp)
    refine ⟨hone.drop ?_ ?_, ?_, ?_, ?_, ?_⟩ <;> simp [Pc.hand, Pc.slot]
  · exact Leaves.both (hk.exact.not_other hs) (hk.exact.not_other hc) (by simp)

/-- The worker begins to run. -/
theorem Kept.begin (hx : Inv cfg x) (hk : Local (.worker c) x .idle) (hmem : c ∈ x.handed) :
    Kept cfg (.worker c) x
      { (x.pass (.socket c) (some (.thread (.worker c)))).pass (.desk c)
          (some (.thread (.worker c))) with
        handed := x.handed.erase c }
      (.waiting c) := by
  have hsocket := (hx.handed c).mp hmem
  have hdesk := (hx.handedDesk c).mp hmem
  obtain ⟨hlive, hrunning⟩ := hx.handedLive c hmem
  have haccepted : c ∈ x.accepted := by simp [hx.accepted c, hsocket]
  refine ⟨?_, ?_, ?_⟩
  · refine hx.both ?_ (by simp) ?_ ?_ (hx.handedNodup.erase c)
      fun d hd => hx.handedLive d (List.mem_of_mem_erase hd)
    · simp [hsocket, eq_comm]
    · intro d
      grind [Shared.pass]
    · intro d
      rw [hx.handedNodup.mem_erase_iff]
      grind
  · refine hk.both rfl rfl ?_ ?_ (.inl rfl)
    · simp [Pc.permit, hlive]
    · simp [Pc.slot, hrunning]
  · refine Leaves.both (by simp [hsocket]) (by simp [hdesk]) ?_
    intro u hu
    simp [Ne.symm hu]

/-- The reaper has taken a socket out of the table. -/
theorem Kept.pop {rest : List Conn} (hx : Inv cfg x) (hk : Local .reaper x (.settling (c :: rest)))
    (hmem : c ∈ x.lingering) :
    Kept cfg .reaper x
      { x.pass (.socket c) (some (.thread .reaper)) with lingering := x.lingering.erase c }
      (.popped c rest) := by
  have hsocket := (hx.table c).mp hmem
  have hstarted := hx.reaper (List.ne_nil_of_mem hmem)
  have hbound := hx.bound
  have hlength := List.length_erase_of_mem hmem
  refine ⟨?_, ?_, ?_⟩
  · refine { hx with
      accepted := fun d => ?_
      desk := fun d hd => hx.desk d (by simpa using hd)
      handed := fun d => ?_
      handedDesk := fun d => ?_
      table := fun d => ?_
      closed := fun d => ?_
      tableNodup := hx.tableNodup.erase c
      liveDesk := fun d hd => ?_
      runningDesk := fun d hd => ?_
      bound := ?_
      reaper := fun _ => hstarted }
    · have := hx.accepted d
      rw [Shared.pass_socket]
      grind [Shared.pass]
    · have := hx.handed d
      rw [Shared.pass_socket]
      grind [Shared.pass]
    · rw [Shared.pass_socket_desk]
      exact hx.handedDesk d
    · have := hx.table d
      rw [Shared.pass_socket, hx.tableNodup.mem_erase_iff]
      grind
    · have := hx.closed d
      rw [Shared.pass_socket]
      grind [Shared.pass]
    · rw [Shared.pass_socket_desk]
      exact hx.liveDesk d hd
    · rw [Shared.pass_socket_desk]
      exact hx.runningDesk d hd
    · simp only [hlength]
      omega
  · have hexact : Custody.Exact x.own .reaper [] := hk.exact
    refine ⟨hexact.take, ?_, ?_, ?_, ?_⟩ <;> simp [Pc.hand, Pc.slot]
  · refine Leaves.of_passes (Custody.Passes.give ?_ ?_) rfl rfl
    · simp [hsocket]
    · intro u hu
      simp [Ne.symm hu]

/-- `graceful_shutdown` has taken the whole table. -/
theorem Kept.takeAll (hx : Inv cfg x) (hk : Local .shutdown x .taking) :
    Kept cfg .shutdown x (takeAll x) (.closingAll x.lingering) := by
  refine ⟨?_, ?_, ?_⟩
  · refine { hx with
      accepted := fun d => ?_
      handed := fun d => ?_
      table := fun d => ?_
      closed := fun d => ?_
      tableNodup := List.nodup_nil
      bound := Nat.zero_le _
      reaper := fun hne => absurd rfl hne }
    · have := hx.accepted d
      have := hx.table d
      simp only [BoundedServer.takeAll]
      grind
    · have := hx.handed d
      have := hx.table d
      simp only [BoundedServer.takeAll]
      grind
    · have := hx.table d
      simp only [BoundedServer.takeAll]
      grind
    · have := hx.closed d
      have := hx.table d
      simp only [BoundedServer.takeAll]
      grind
  · have hnone : ∀ j, x.own j ≠ some (.thread .shutdown) := by
      intro j hj
      simpa [Pc.hand] using (hk.exact j).mpr hj
    refine ⟨?_, ?_, by simp [Pc.hand], by simp [Pc.hand], by simp [Pc.hand]⟩
    · intro j
      cases j with
      | socket d => simp [Pc.hand, BoundedServer.takeAll, hnone]
      | desk d => simp [Pc.hand, BoundedServer.takeAll, hnone]
    · exact hx.tableNodup.map fun _ _ h => by simpa using h
  · refine Leaves.of_passes (fun u hu j => ?_) rfl rfl
    cases j with
    | desk d => rfl
    | socket d =>
      have := hx.table d
      simp only [BoundedServer.takeAll]
      split
      · rename_i hmem
        simp [this.mp hmem, Ne.symm hu]
      · rfl

/-- The reaper retires from an empty table. -/
theorem Kept.retire (hx : Inv cfg x) (hk : Local t x k) (hnil : x.lingering = []) :
    Kept cfg t x { x with lingerThread := .none } k where
  inv := { hx with
    starts := by simp
    reaper := fun hne => absurd hnil hne }
  own := { hk with }
  others := Leaves.of_passes Custody.Passes.refl rfl rfl

/-! ## Steps -/

/-- The desk alone in hand, just before the accept loop lets go of it. -/
def Within.bare (c : Conn) : Within → Pc
  | refused => .releasing c false
  | _ => .finished c

variable {w : Within}

theorem Within.bare_hand : (w.bare c).hand = [.desk c] := by cases w <;> rfl

theorem Within.bare_slot : (w.bare c).slot = none := by cases w <;> rfl

theorem Within.bare_permit : (w.bare c).permit = (Pc.shutting w c).permit := by cases w <;> rfl

/-- The socket is out of the thread's hand: in the table or closed. -/
theorem Kept.rid (h : Kept cfg t x x' (w.bare c)) : Kept cfg t x (w.letGo x' c) (w.rid c) := by
  cases w with
  | accept => exact h.trans (Kept.letGo h.inv h.own rfl rfl rfl rfl rfl)
  | refused => exact h
  | ending => exact h

theorem lingerSection_keeps {ok : Bool} (hx : Inv cfg x) (hk : Local t x (.lingering w c))
    (hok : x.lingering.length < cfg.maxPending → x.lingerThread = .none → ok = true) :
    Kept cfg t x (lingerSection cfg ok x w c).1 (lingerSection cfg ok x w c).2 := by
  have hbare : (Pc.lingering w c).hand = .socket c :: (w.bare c).hand := by
    rw [Within.bare_hand]
    rfl
  have hperm : (w.bare c).permit = (Pc.lingering w c).permit := by cases w <;> rfl
  have hslot : (w.bare c).slot = (Pc.lingering w c).slot := Within.bare_slot
  unfold lingerSection
  split
  · exact Kept.same hx hk rfl (by cases w <;> rfl) rfl
  · rename_i hroom
    have hput := Kept.linger hx hk (not_le.mp hroom) hbare hperm hslot
    split
    · rename_i hnone
      rw [if_pos (hok (not_le.mp hroom) hnone)]
      exact hput.rid
    · rename_i hsome
      -- the reaper there is was started
      have hstarted : x.lingerThread = .started := by
        have := hx.starts
        cases hthread : x.lingerThread <;> simp_all
      have hlinger : { x.linger c with lingerThread := .started } = x.linger c := by
        rw [← hstarted]
        rfl
      exact (hlinger ▸ hput).rid

theorem refuse_keeps {choice : Choice} (hx : Inv cfg x) (hk : Local t x k)
    (hok : ∀ w c started, k = .lingering w c → choice = .ok started →
      x.lingering.length < cfg.maxPending → x.lingerThread = .none → started = true)
    (h : refuse cfg choice x k = some (x', k')) : Kept cfg t x x' k' := by
  unfold refuse at h
  split at h
  · rename_i w c sent
    cases h
    refine Kept.same hx hk ?_ ?_ ?_ <;> cases sent <;> cases w <;> rfl
  · rename_i w c halved
    cases h
    refine Kept.same hx hk ?_ ?_ ?_ <;> cases halved <;> cases w <;> rfl
  · rename_i w c started
    simp only [Option.some_inj] at h
    have := lingerSection_keeps hx hk (hok w c started rfl rfl)
    rwa [h] at this
  · rename_i w c
    cases h
    refine (Kept.close hx hk ?_ Within.bare_permit Within.bare_slot).rid
    rw [Within.bare_hand]
    rfl
  · cases h

theorem acceptLoop_keeps {choice : Choice} (hx : Inv cfg x) (hk : Local .accept x k)
    (hstart : ∀ c started, k = .starting c → choice = .ok started → started = true)
    (hok : ∀ w c started, k = .lingering w c → choice = .ok started →
      x.lingering.length < cfg.maxPending → x.lingerThread = .none → started = true)
    (h : acceptLoop cfg choice x k = some (x', k')) : Kept cfg .accept x x' k' := by
  unfold acceptLoop at h
  split at h
  · rename_i c
    split at h
    · cases h
    · rename_i hfresh
      cases h
      exact Kept.connect hx hk hfresh
  · rename_i c
    split at h
    · cases h
      exact Kept.admit hx hk
    · cases h
      exact Kept.same hx hk rfl rfl rfl
  · rename_i c started
    obtain rfl := hstart c started rfl rfl
    cases h
    exact Kept.handOver hx hk
  · exact refuse_keeps hx hk hok h

theorem worker_keeps {d : Conn} {choice : Choice} (hx : Inv cfg x) (hk : Local (.worker d) x k)
    (hok : ∀ w c started, k = .lingering w c → choice = .ok started →
      x.lingering.length < cfg.maxPending → x.lingerThread = .none → started = true)
    (h : worker cfg d choice x k = some (x', k')) : Kept cfg (.worker d) x x' k' := by
  unfold worker at h
  split at h
  · split at h
    · rename_i hmem
      cases h
      exact Kept.begin hx hk hmem
    · cases h
  · rename_i c acquired
    split at h
    · split at h
      · rename_i hroom
        cases h
        -- the connection is the worker's own
        have hown := hk.worker c (by simp [Pc.hand])
        obtain rfl : d = c := by simpa using hown
        exact Kept.acquireSlot hx hk hroom
      · cases h
    · cases h
      exact Kept.same hx hk rfl rfl rfl
  · cases h
    exact Kept.tally hx hk rfl rfl rfl
  · cases h
    exact Kept.tally hx hk rfl rfl rfl
  · cases h
    exact Kept.tally hx hk rfl rfl rfl
  · cases h
    exact Kept.releaseSlot hx hk
  · cases h
    exact Kept.releasePermit hx hk
  · cases h
    refine Kept.tally hx hk ?_ ?_ ?_ <;> split <;> rfl
  · cases h
    refine Kept.same hx hk ?_ ?_ ?_ <;> split <;> rfl
  · exact refuse_keeps hx hk hok h

theorem reaper_keeps {choice : Choice} (hx : Inv cfg x) (hk : Local .reaper x k)
    (hsettle : ∀ c rest, k = .settling (c :: rest) → choice = .go → c ∈ x.lingering)
    (h : reaper choice x k = some (x', k')) : Kept cfg .reaper x x' k' := by
  unfold reaper at h
  split at h
  · split at h
    · split at h
      · rename_i hnil
        cases h
        exact Kept.retire hx hk hnil
      · cases h
        exact Kept.same hx hk rfl rfl rfl
    · cases h
  · split at h
    · cases h
      exact Kept.same hx hk rfl rfl rfl
    · cases h
  · rename_i c rest
    have hmem := hsettle c rest rfl rfl
    rw [if_pos hmem] at h
    cases h
    exact Kept.pop hx hk hmem
  · cases h
    exact Kept.same hx hk rfl rfl rfl
  · cases h
    exact Kept.close hx hk rfl rfl rfl
  · cases h

theorem gracefulShutdown_keeps {choice : Choice} (hx : Inv cfg x) (hk : Local .shutdown x k)
    (h : gracefulShutdown choice x k = some (x', k')) : Kept cfg .shutdown x x' k' := by
  unfold gracefulShutdown at h
  split at h
  · cases h
    exact Kept.same hx hk rfl rfl rfl
  · split at h
    · cases h
      exact Kept.same hx hk rfl rfl rfl
    · cases h
  · cases h
    exact Kept.takeAll hx hk
  · cases h
    exact Kept.close hx hk rfl rfl rfl
  · cases h
    exact Kept.same hx hk rfl rfl rfl
  · cases h

theorem advance_keeps {s : Sys} {choice : Choice} (hx : Inv cfg s.shared)
    (hk : Local t s.shared (s.pc t)) (hok : Orderly cfg s (t, choice))
    (h : advance cfg t choice s.shared (s.pc t) = some (x', k')) : Kept cfg t s.shared x' k' := by
  have hlinger : ∀ w c started, s.pc t = .lingering w c → choice = .ok started →
      s.shared.lingering.length < cfg.maxPending → s.shared.lingerThread = .none →
      started = true := by
    intro w c started hpc hchoice
    simpa [Orderly, hpc, hchoice] using hok
  cases t with
  | accept =>
    refine acceptLoop_keeps hx hk (fun c started hpc hchoice => ?_) hlinger h
    simpa [Orderly, hpc, hchoice] using hok
  | worker d => exact worker_keeps hx hk hlinger h
  | reaper =>
    refine reaper_keeps hx hk (fun c rest hpc hchoice => ?_) h
    simpa [Orderly, hpc, hchoice] using hok
  | shutdown => exact gracefulShutdown_keeps hx hk h

theorem holds_init : Interleaving.Holds (Inv cfg) Local Sys.init where
  global := by constructor <;> simp [Sys.init]
  thread t := by
    constructor <;> simp [Sys.init, Pc.hand, Pc.slot, Custody.Exact]

theorem holds_of_reachable {s : Sys} (h : Runs.Reachable (next cfg) (Orderly cfg) Sys.init s) :
    Interleaving.Holds (Inv cfg) Local s := by
  refine Interleaving.threadwise (R := Leaves) holds_init ?_ ?_ h
  · intro s t choice x' k' _ hI hok ha
    have hkept := advance_keeps hI.global (hI.thread t) hok ha
    exact ⟨hkept.inv, hkept.own, hkept.others⟩
  · intro t u x x' k hl hu hk
    exact hk.stable hl hu

/-! ## What is asked, of every run -/

variable {s : Sys}

theorem hasSocket_iff (h : Interleaving.Holds (Inv cfg) Local s) (p : Holder Thread Place) :
    HasSocket s c p ↔ s.shared.own (.socket c) = some p := by
  rcases p with t | p
  · exact (h.thread t).exact _
  · cases p with
    | handed => exact h.global.handed c
    | table => exact h.global.table c
    | closed => exact h.global.closed c

theorem live_iff_admitted (h : Interleaving.Holds (Inv cfg) Local s) :
    c ∈ s.shared.live ↔ Admitted s c := by
  constructor
  · intro hlive
    obtain ⟨p, hdesk, hplace⟩ := h.global.liveDesk c hlive
    cases p with
    | thread t =>
      have hhand := ((h.thread t).exact _).mpr hdesk
      exact .inr ⟨t, ((h.thread t).permit c hhand).mp hlive⟩
    | place p =>
      obtain rfl := hplace p rfl
      exact .inl ((h.global.handedDesk c).mpr hdesk)
  · rintro (hhanded | ⟨t, ht⟩)
    · exact (h.global.handedLive c hhanded).1
    · exact ((h.thread t).permit c (Pc.desk_of_permit ht)).mpr ht

theorem handling_running (h : Interleaving.Holds (Inv cfg) Local s) (ht : s.pc t = .handling c) :
    c ∈ s.shared.running ∧ t = .worker c := by
  have hslot : (s.pc t).slot = some c := by simp [ht, Pc.slot]
  have hhand := Pc.desk_of_slot hslot
  refine ⟨((h.thread t).slot c hhand).mpr hslot, ?_⟩
  rcases (h.thread t).worker c hhand with heq | ⟨-, hnone⟩
  · exact heq
  · simp [hslot] at hnone

theorem accounted (h : Interleaving.Holds (Inv cfg) Local s) : Accounted cfg s where
  permits := ⟨s.shared.live, h.global.liveNodup, fun _ => live_iff_admitted h, h.global.permits⟩
  handlers := by
    refine ⟨s.shared.running.map .worker, by simpa using h.global.slotsBound, fun t c ht => ?_⟩
    obtain ⟨hrun, rfl⟩ := handling_running h ht
    exact List.mem_map_of_mem hrun
  custody c hc := by
    have hsome := (h.global.accepted c).mp hc
    obtain ⟨p, hp⟩ := Option.ne_none_iff_exists'.mp hsome
    refine ⟨p, (hasSocket_iff h p).mpr hp, fun q hq => ?_⟩
    have heq := (hasSocket_iff h q).mp hq
    rw [hp] at heq
    simpa using heq.symm
  bound := h.global.bound
  reaper := h.global.reaper

end

/-- Every run whose threads start, and whose reaper settles only sockets still
in the table, is accounted for throughout. -/
theorem servesAccounted (cfg : Config) : ServesAccounted cfg (Orderly cfg) :=
  fun _ h => accounted (holds_of_reachable h)

/-- A worker that does not start: its permit stays taken. -/
theorem unstarted_leaks : ¬ ∀ cfg, ServesAccounted cfg Runs.anyStep := by
  intro h
  have hrun : (Runs.run (next ⟨1, 2, 1⟩) (fun _ a => a.1 = .accept) Sys.init
      [(.accept, .connect 0), (.accept, .go), (.accept, .ok false), (.accept, .go)]).map
        (fun s => decide (s.shared.permits = 1) && decide (s.shared.handed = []) &&
          decide ((s.pc .accept).permit = none)) = some true := by
    decide +kernel
  obtain ⟨s, hs, hp⟩ := Runs.exists_reachable hrun
  simp only [Bool.and_eq_true, decide_eq_true_eq] at hp
  obtain ⟨⟨hpermits, hhanded⟩, haccept⟩ := hp
  obtain ⟨live, -, hlive, hlength⟩ := (h _ s hs.any).permits
  have hnobody : ∀ c, c ∉ live := by
    intro c hc
    rcases (hlive c).mp hc with hmem | ⟨t, ht⟩
    · simp [hhanded] at hmem
    · by_cases hu : t = .accept
      · simp [hu, haccept] at ht
      · rw [Interleaving.others_of_solo (fun _ _ hok => hok) hs t hu] at ht
        cases ht
  rw [List.eq_nil_iff_forall_not_mem.mpr hnobody, hpermits] at hlength
  cases hlength

end MlopsLite.HostAgent.BoundedServer
