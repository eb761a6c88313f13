import MlopsLite.Lib.Raising

/-!
# Meter — one reservation, settled once

`_Meter`, `_post`, `chat_completions` and `_chat_stream`
(`gateway/app/routers/broker_openai.py`) over a reservation and the log of its
settlement (`gateway/app/metering.py`). An execution says what the backend, the
client and the disk do; the other non-streaming routes are `plain` ones too.

A settlement counts from the moment its line is in the log: from there it gets
to the store, now or by the replay. The store takes a settlement or a release
of a reservation that is still `reserved`, and no other.
-/

namespace MlopsLite.Gateway.Meter

/-! ## Executions -/

/-- The settlement log: which of a request's attempts the disk takes, and in front
of which of them the sweep of orphans has come. -/
structure Wal where
  append : ℕ → Bool
  sweeps : ℕ → Bool

/-- What `reserve_or_refuse` comes to; a refusal may leave the row behind. -/
inductive Reserve
  | reserved
  | refused (landed : Bool)

/-- What `_post` comes to: `ran` and `reached` say that the GPU worked for it,
`json` that the answer is JSON, and `shaped` that it is what the route reads. -/
inductive Backend
  | fails (reached : Bool)
  | answers (status : ℕ) (ran json shaped : Bool)

/-- What the upstream of a stream comes to: it is not opened, it refuses, with a
text that can be read or not, or it sends lines, each after a while, until it is
over, fails or the client leaves. -/
inductive Upstream
  | fails (reached : Bool)
  | refuses (ran readable : Bool)
  | sends (lines : List ℚ≥0) (last : ℚ≥0) (cut : Bool)

/-- Where a stream's response gets to. -/
inductive Handover
  | raises
  | unstarted
  | started (idle opening : ℚ≥0) (upstream : Upstream)

/-- The route's own part takes `took`. -/
inductive Route
  | plain (took : ℚ≥0) (backend : Backend)
  | stream (took : ℚ≥0) (handover : Handover)

structure Execution where
  wal : Wal
  reserve : Reserve
  route : Route

/-! ## The meter -/

inductive Ledger
  | reserved
  | settled (seconds : ℚ≥0)
  | released
  deriving DecidableEq

/-- The seconds of a settlement. -/
def Ledger.seconds : Ledger → ℚ≥0
  | .settled seconds => seconds
  | .reserved | .released => 0

/-- `_Meter`'s fields; its estimate, tenant and modality are left out. -/
structure State where
  started : ℚ≥0
  gpuSeconds : ℚ≥0
  settled : Bool
  transferred : Bool

/-- The reservation, how often it left `reserved` (which is history), and how many
settlements were tried. -/
structure Book where
  reservation : Option Ledger
  transitions : ℕ
  attempts : ℕ

structure World where
  now : ℚ≥0
  meter : State
  book : Book

inductive Exc
  | refusal
  | append
  | malformed
  | attribute
  | cut
  | response

abbrev Run := Raising World Exc

open Raising (raise read modify within ensure)

namespace Book

/-- The store's guard: only a `reserved` row changes. -/
def close (b : Book) (l : Ledger) : Book :=
  if b.reservation = some .reserved then
    { b with reservation := some l, transitions := b.transitions + 1 }
  else b

/-- The seconds that the ledger charges. -/
def charge (b : Book) : ℚ≥0 := (b.reservation.map Ledger.seconds).getD 0

/-- The sweep, where it has come. -/
def swept (b : Book) (wal : Wal) : Book := if wal.sweeps b.attempts then b.close .released else b

/-- After an attempt: the store's write follows the line, now or later. -/
def after (b : Book) (wal : Wal) (l : Ledger) : Book :=
  let swept := { b.swept wal with attempts := b.attempts + 1 }
  if wal.append b.attempts then swept.close l else swept

end Book

/-- Time goes by. -/
def pass (d : ℚ≥0) : Run Unit := modify fun w => { w with now := w.now + d }

/-- `_wal_append`, and what follows it. -/
def record (wal : Wal) (l : Ledger) : Run Unit := fun w =>
  (if wal.append w.book.attempts then .ok () else .error .append,
    { w with book := w.book.after wal l })

/-- `elapsed`. -/
def World.elapsed (w : World) : ℚ≥0 := w.now - w.meter.started

/-- `finish`. -/
def finish (wal : Wal) (gpuSeconds : ℚ≥0) : Run Unit := do
  let w ← read
  if w.meter.settled then return ()
  modify fun w => { w with meter := { w.meter with gpuSeconds } }
  record wal (.settled gpuSeconds)
  modify fun w => { w with meter := { w.meter with settled := true } }

/-- `finish(self.elapsed())`. -/
def finishElapsed (wal : Wal) : Run Unit := do
  let w ← read
  finish wal w.elapsed

/-- `abandon`. -/
def abandon (wal : Wal) : Run Unit := do
  let w ← read
  if w.meter.settled then return ()
  record wal .released
  modify fun w => { w with meter := { w.meter with settled := true } }

def transfer : Run Unit := modify fun w => { w with meter := { w.meter with transferred := true } }

/-- `__exit__`. -/
def exit (wal : Wal) : Option Exc → Run Unit
  | some _ => finishElapsed wal
  | none => do
    let w ← read
    if w.meter.transferred then return ()
    finishElapsed wal

/-! ## The routes -/

/-- `_post`: an `HTTPError` is refused as `store_unavailable`. -/
def post (took : ℚ≥0) (backend : Backend) : Run Backend := do
  pass took
  match backend with
  | .fails _ => raise .refusal
  | answer => return answer

/-- The body of a route that answers at once. -/
def plainBody (wal : Wal) (took : ℚ≥0) (backend : Backend) : Run Unit := do
  match ← post took backend with
  | .fails _ => return ()
  | .answers status _ json shaped =>
    if status ≠ 200 then do
      abandon wal
      raise .refusal
    else if json then do
      finishElapsed wal
      if shaped then return () else raise .attribute
    else raise .malformed

/-- `return await _chat_stream(...)`, inside `with meter`. -/
def streamBody (took : ℚ≥0) (handover : Handover) : Run Unit := do
  transfer
  pass took
  match handover with
  | .raises => raise .response
  | _ => return ()

/-- `async for chunk in upstream.aiter_lines()`. -/
def lines (last : ℚ≥0) (cut : Bool) : List ℚ≥0 → Run Unit
  | [] => do
    pass last
    if cut then raise .cut else return ()
  | d :: ds => do
    pass d
    lines last cut ds

/-- The `try` of the generator: whether it was refused before execution. -/
def generate (opening : ℚ≥0) (upstream : Upstream) : Run Unit := do
  pass opening
  match upstream with
  | .fails _ => raise .cut
  | .refuses _ readable => if readable then return () else raise .cut
  | .sends ds last cut => lines last cut ds

/-- `outcome.get("refused_before_execution")`, as the `finally` finds it. -/
def refusedBeforeExecution : Upstream → Bool
  | .refuses _ readable => readable
  | _ => false

/-- `gen`, once it is started. -/
def gen (wal : Wal) (idle opening : ℚ≥0) (upstream : Upstream) : Run Unit := do
  pass idle
  ensure (generate opening upstream)
    (if refusedBeforeExecution upstream then abandon wal else finishElapsed wal)

/-- What the server makes of the response. -/
def respond (wal : Wal) : Route → Run Unit
  | .stream _ (.started idle opening upstream) => gen wal idle opening upstream
  | _ => return ()

/-- The route, from its reservation on. -/
def metered (wal : Wal) (route : Route) : Run Unit := do
  within
    (match route with
      | .plain took backend => plainBody wal took backend
      | .stream took handover => streamBody took handover)
    (exit wal)
  respond wal route

/-- After `__enter__`. -/
def entered : World := ⟨0, ⟨0, 0, false, false⟩, ⟨some .reserved, 0, 0⟩⟩

/-- After a refusal: no meter was started. -/
def refusedWith (landed : Bool) : Book := ⟨if landed then some .reserved else none, 0, 0⟩

/-- The book when the response has ended. -/
def final (x : Execution) : Book :=
  match x.reserve with
  | .refused landed => refusedWith landed
  | .reserved => (metered x.wal x.route entered).2.book

/-! ## What is asked of them -/

/-- The work got to the GPU. -/
def reachedGpu : Route → Bool
  | .plain _ (.fails reached) => reached
  | .plain _ (.answers status ran _ _) => status = 200 || ran
  | .stream _ (.started _ _ (.fails reached)) => reached
  | .stream _ (.started _ _ (.refuses ran _)) => ran
  | .stream _ (.started _ _ (.sends ..)) => true
  | .stream _ .raises | .stream _ .unstarted => false

/-- From the opening of the stream to its end. -/
def streamTime : Route → ℚ≥0
  | .stream _ (.started _ opening (.sends ds last _)) => opening + ds.sum + last
  | _ => 0

/-- The generator was never started: the sweep's case. -/
def unstarted : Route → Bool
  | .stream _ .unstarted => true
  | _ => false

/-- Settled or released once, nothing charged that did not reach the GPU, and the
whole stream charged. -/
structure Exact (x : Execution) : Prop where
  once : (x.reserve = .reserved → unstarted x.route = false) → (final x).reservation ≠ none →
    (final x).transitions = 1
  free : (x.reserve = .reserved → reachedGpu x.route = false) → (final x).charge = 0
  covers : x.reserve = .reserved → streamTime x.route ≤ (final x).charge

/-- The first attempt at a settlement is logged, or the sweep was first. -/
def Closes (wal : Wal) : Prop := wal.append 0 = true ∨ wal.sweeps 0 = true

/-- The settlement gets to the log, and what did not run is not charged for. -/
def Kept (x : Execution) : Prop :=
  match x.reserve, x.route with
  | .refused landed, _ => landed = false
  | _, .plain took (.fails reached) =>
    Closes x.wal ∧ (reached = true ∨ x.wal.sweeps 0 = true ∨ took = 0)
  | _, .plain took (.answers status ran json _) =>
    if status ≠ 200 then
      Closes x.wal ∨ x.wal.sweeps 1 = true ∨ x.wal.append 1 = true ∧ (ran = true ∨ took = 0)
    else if json then Closes x.wal ∨ x.wal.sweeps 1 = true ∨ x.wal.append 1 = true
    else Closes x.wal
  | _, .stream took .raises => Closes x.wal ∧ (x.wal.sweeps 0 = true ∨ took = 0)
  | _, .stream _ .unstarted => True
  | _, .stream took (.started idle opening (.fails reached)) =>
    Closes x.wal ∧ (reached = true ∨ x.wal.sweeps 0 = true ∨ took + idle + opening = 0)
  | _, .stream took (.started idle opening (.refuses ran readable)) =>
    Closes x.wal ∧
      (readable = true ∨ ran = true ∨ x.wal.sweeps 0 = true ∨ took + idle + opening = 0)
  | _, .stream _ (.started _ opening (.sends ds last _)) =>
    if x.wal.sweeps 0 then opening + ds.sum + last = 0 else x.wal.append 0 = true

variable {wal : Wal} {w : World} {l : Ledger}

/-! ## The meter's calls -/

/-- A settled meter has nothing to do. -/
theorem finish_of_settled {seconds : ℚ≥0} (h : w.meter.settled = true) :
    finish wal seconds w = (.ok (), w) := by
  simp [finish, h]

/-- Otherwise one attempt is made, and the meter is settled if it is logged. -/
theorem finish_of_unsettled {seconds : ℚ≥0} (h : w.meter.settled = false) : finish wal seconds w =
    (if wal.append w.book.attempts then .ok () else .error .append,
      { w with
        meter := { w.meter with gpuSeconds := seconds, settled := wal.append w.book.attempts }
        book := w.book.after wal (.settled seconds) }) := by
  cases happend : wal.append w.book.attempts <;> simp [finish, h, record, happend]

theorem abandon_of_unsettled (h : w.meter.settled = false) : abandon wal w =
    (if wal.append w.book.attempts then .ok () else .error .append,
      { w with
        meter := { w.meter with settled := wal.append w.book.attempts }
        book := w.book.after wal .released }) := by
  cases happend : wal.append w.book.attempts
  · obtain ⟨now, ⟨started, gpuSeconds, settled, transferred⟩, book⟩ := w
    obtain rfl : settled = false := h
    simp [abandon, record, happend]
  · simp [abandon, h, record, happend]

theorem finish_book {seconds : ℚ≥0} : (finish wal seconds w).2.book =
    if w.meter.settled then w.book else w.book.after wal (.settled seconds) := by
  cases hsettled : w.meter.settled with
  | true => rw [finish_of_settled hsettled, if_pos rfl]
  | false =>
    rw [finish_of_unsettled hsettled]
    rfl

theorem finishElapsed_apply : finishElapsed wal w = finish wal w.elapsed w := rfl

/-- An exit settles what is not settled, unless it was handed over. -/
theorem exit_book {e : Option Exc} (h : e = none → w.meter.transferred = false) :
    (exit wal e w).2.book =
      if w.meter.settled then w.book else w.book.after wal (.settled w.elapsed) := by
  cases e with
  | some e => exact finish_book
  | none => simpa [exit, h rfl, finishElapsed_apply] using finish_book

theorem elapsed_of_zero (h : w.meter.started = 0) : w.elapsed = w.now := by
  rw [World.elapsed, h, tsub_zero]

/-! ## The routes -/

/-- The book of a new reservation. -/
def placed : Book := entered.book

theorem plain_book {took : ℚ≥0} {backend : Backend} :
    (metered wal (.plain took backend) w).2.book =
      (exit wal (Raising.raised (plainBody wal took backend w).1)
        (plainBody wal took backend w).2).2.book := by
  show ((within (plainBody wal took backend) (exit wal) >>= fun _ => pure ()) w).2.book = _
  rw [Raising.bind_pure_snd, Raising.within_snd]

/-- What goes wrong before anything was tried is settled by the exit. -/
theorem plain_book_of_error {took : ℚ≥0} {backend : Backend} {e : Exc}
    (h : plainBody wal took backend entered = (.error e, { entered with now := took })) :
    (metered wal (.plain took backend) entered).2.book = placed.after wal (.settled took) := by
  rw [plain_book, h, exit_book (by simp [Raising.raised])]
  simp [entered, elapsed_of_zero, placed]

theorem plainBody_fails {took : ℚ≥0} {reached : Bool} :
    plainBody wal took (.fails reached) entered = (.error .refusal, { entered with now := took }) := by
  simp [plainBody, post, pass, entered]

theorem plainBody_malformed {took : ℚ≥0} {ran shaped : Bool} :
    plainBody wal took (.answers 200 ran false shaped) entered =
      (.error .malformed, { entered with now := took }) := by
  simp [plainBody, post, pass, entered]

theorem plain_book_refused {took : ℚ≥0} {status : ℕ} {ran json shaped : Bool} (h : status ≠ 200) :
    (metered wal (.plain took (.answers status ran json shaped)) entered).2.book =
      if wal.append 0 then placed.after wal .released
      else (placed.after wal .released).after wal (.settled took) := by
  rw [plain_book]
  cases happend : wal.append 0 <;>
    simp [plainBody, post, pass, h, abandon_of_unsettled, entered, happend, exit_book, Raising.raised,
      elapsed_of_zero, placed]

theorem plain_book_answered {took : ℚ≥0} {ran shaped : Bool} :
    (metered wal (.plain took (.answers 200 ran true shaped)) entered).2.book =
      if wal.append 0 then placed.after wal (.settled took)
      else (placed.after wal (.settled took)).after wal (.settled took) := by
  rw [plain_book]
  cases happend : wal.append 0 <;> cases shaped <;>
    simp [plainBody, post, pass, finishElapsed_apply, finish_of_unsettled, entered, happend,
      exit_book, Raising.raised, elapsed_of_zero, placed]

theorem stream_book_raises {took : ℚ≥0} :
    (metered wal (.stream took .raises) entered).2.book = placed.after wal (.settled took) := by
  show ((within (streamBody took .raises) (exit wal) >>= fun _ => pure ()) entered).2.book = _
  rw [Raising.bind_pure_snd, Raising.within_snd]
  simp [streamBody, transfer, pass, exit_book, Raising.raised, entered, elapsed_of_zero, placed]

theorem stream_book_unstarted {took : ℚ≥0} :
    (metered wal (.stream took .unstarted) entered).2.book = placed := by
  show ((within (streamBody took .unstarted) (exit wal) >>= fun _ => pure ()) entered).2.book = _
  rw [Raising.bind_pure_snd, Raising.within_snd]
  simp [streamBody, transfer, pass, exit, Raising.raised, entered, placed]

/-- How long an upstream sends. -/
def Upstream.time : Upstream → ℚ≥0
  | .sends ds last _ => ds.sum + last
  | _ => 0

theorem lines_snd (ds : List ℚ≥0) (last : ℚ≥0) (cut : Bool) (w : World) :
    (lines last cut ds w).2 = { w with now := w.now + (ds.sum + last) } := by
  induction ds generalizing w with
  | nil => cases cut <;> simp [lines, pass]
  | cons d ds ih => simp [lines, pass, ih, add_assoc]

/-- Whatever becomes of a stream, only time goes by. -/
theorem generate_snd (opening : ℚ≥0) (upstream : Upstream) (w : World) :
    (generate opening upstream w).2 = { w with now := w.now + opening + upstream.time } := by
  cases upstream with
  | fails reached => simp [generate, pass, Upstream.time]
  | refuses ran readable => cases readable <;> simp [generate, pass, Upstream.time]
  | sends ds last cut => simp [generate, pass, lines_snd, Upstream.time]

/-- A started generator settles at its own end. -/
theorem stream_book_started {took idle opening : ℚ≥0} {upstream : Upstream} :
    (metered wal (.stream took (.started idle opening upstream)) entered).2.book =
      placed.after wal (if refusedBeforeExecution upstream then .released
        else .settled (took + idle + opening + upstream.time)) := by
  have hwith : within (streamBody took (.started idle opening upstream)) (exit wal) entered =
      (.ok (), { entered with now := took, meter := ⟨0, 0, false, true⟩ }) := by
    simp [within, streamBody, transfer, pass, exit, Raising.raised, entered]
  have hrun : metered wal (.stream took (.started idle opening upstream)) entered =
      gen wal idle opening upstream { entered with now := took, meter := ⟨0, 0, false, true⟩ } := by
    show (within (streamBody took (.started idle opening upstream)) (exit wal) >>= fun _ =>
      gen wal idle opening upstream) entered = _
    rw [Raising.bind_apply, hwith]
  rw [hrun]
  show (ensure (generate opening upstream) _ _).2.book = _
  rw [Raising.ensure_snd, generate_snd]
  cases hrefused : refusedBeforeExecution upstream with
  | true => simp [abandon_of_unsettled, entered, placed]
  | false => simp [finishElapsed_apply, finish_book, entered, placed, World.elapsed]

/-! ## One attempt, or two -/

/-- What one attempt leaves: the sweep goes first, then the line. -/
theorem after_placed (l : Ledger) : placed.after wal l =
    if wal.sweeps 0 then ⟨some .released, 1, 1⟩
    else if wal.append 0 then ⟨some l, 1, 1⟩
    else ⟨some .reserved, 0, 1⟩ := by
  cases hsweep : wal.sweeps 0 <;> cases happend : wal.append 0 <;>
    simp [placed, entered, Book.after, Book.swept, Book.close, hsweep, happend]

/-- What a second attempt leaves where the first was not logged. -/
theorem after_after (l l' : Ledger) (h : wal.append 0 = false) :
    (placed.after wal l).after wal l' =
      if wal.sweeps 0 ∨ wal.sweeps 1 then ⟨some .released, 1, 2⟩
      else if wal.append 1 then ⟨some l', 1, 2⟩
      else ⟨some .reserved, 0, 2⟩ := by
  rw [after_placed, h]
  cases hfirst : wal.sweeps 0 <;> cases hsecond : wal.sweeps 1 <;> cases happend : wal.append 1 <;>
    simp [Book.after, Book.swept, Book.close, hsecond, happend]

/-- A reservation that one attempt is made to settle. -/
theorem exact_of_attempt {route : Route} (hstarted : unstarted route = false)
    (hbook : (metered wal route entered).2.book = placed.after wal l) :
    Exact ⟨wal, .reserved, route⟩ ↔ Closes wal ∧
      (reachedGpu route = true ∨ wal.sweeps 0 = true ∨ l.seconds = 0) ∧
      streamTime route ≤ if wal.sweeps 0 then 0 else l.seconds := by
  have hfinal : final ⟨wal, .reserved, route⟩ = placed.after wal l := hbook
  have hexact : Exact ⟨wal, .reserved, route⟩ ↔
      ((placed.after wal l).reservation ≠ none → (placed.after wal l).transitions = 1) ∧
      (reachedGpu route = false → (placed.after wal l).charge = 0) ∧
      streamTime route ≤ (placed.after wal l).charge := by
    rw [← hfinal]
    exact ⟨fun h => ⟨h.once fun _ => hstarted, fun hnot => h.free fun _ => hnot, h.covers rfl⟩,
      fun h => ⟨fun _ => h.1, fun hnot => h.2.1 (hnot rfl), fun _ => h.2.2⟩⟩
  rw [hexact, after_placed, Closes]
  cases hsweep : wal.sweeps 0 <;> cases happend : wal.append 0 <;>
    cases hreached : reachedGpu route <;> simp [Book.charge, Ledger.seconds]

/-- A reservation that a second attempt is made to settle. -/
theorem exact_of_two {route : Route} {l' : Ledger} (hstarted : unstarted route = false)
    (hstream : streamTime route = 0)
    (hbook : (metered wal route entered).2.book = if wal.append 0 then placed.after wal l
      else (placed.after wal l).after wal l')
    (hfirst : reachedGpu route = true ∨ l.seconds = 0) :
    Exact ⟨wal, .reserved, route⟩ ↔ Closes wal ∨ wal.sweeps 1 = true ∨
      wal.append 1 = true ∧ (reachedGpu route = true ∨ l'.seconds = 0) := by
  have hexact : Exact ⟨wal, .reserved, route⟩ ↔
      ((final ⟨wal, .reserved, route⟩).reservation ≠ none →
        (final ⟨wal, .reserved, route⟩).transitions = 1) ∧
      (reachedGpu route = false → (final ⟨wal, .reserved, route⟩).charge = 0) :=
    ⟨fun h => ⟨h.once fun _ => hstarted, fun hnot => h.free fun _ => hnot⟩,
      fun h => ⟨fun _ => h.1, fun hnot => h.2 (hnot rfl), fun _ => by simp [hstream]⟩⟩
  have hfinal : final ⟨wal, .reserved, route⟩ = _ := hbook
  rw [hexact, hfinal, Closes]
  cases happend : wal.append 0 with
  | true =>
    rw [if_pos rfl, after_placed]
    cases hsweep : wal.sweeps 0 <;> cases hreached : reachedGpu route <;>
      simp_all [Book.charge, Ledger.seconds]
  | false =>
    rw [if_neg (by simp), after_after l l' happend]
    cases hsweep : wal.sweeps 0 <;> cases hsecond : wal.sweeps 1 <;>
      cases hlast : wal.append 1 <;> cases hreached : reachedGpu route <;>
      simp [Book.charge, Ledger.seconds]

/-- A request is settled exactly if its settlement gets to the log, and nothing that did
not run takes time before it is given up. -/
theorem exact_iff (x : Execution) : Exact x ↔ Kept x := by
  obtain ⟨wal, reserve, route⟩ := x
  cases reserve with
  | refused landed =>
    have hfinal : final ⟨wal, .refused landed, route⟩ = refusedWith landed := rfl
    cases landed with
    | true =>
      refine iff_of_false (fun h => ?_) (by simp [Kept])
      have honce := h.once (fun h => by cases h) (by simp [hfinal, refusedWith])
      simp [hfinal, refusedWith] at honce
    | false =>
      refine iff_of_true ⟨fun _ h => ?_, fun _ => ?_, fun h => by cases h⟩ (by simp [Kept])
      · simp [hfinal, refusedWith] at h
      · simp [hfinal, refusedWith, Book.charge]
  | reserved =>
    cases route with
    | plain took backend =>
      cases backend with
      | fails reached =>
        rw [exact_of_attempt rfl (plain_book_of_error plainBody_fails)]
        simp [Kept, reachedGpu, streamTime, Ledger.seconds]
      | answers status ran json shaped =>
        by_cases hstatus : status = 200
        · subst hstatus
          cases json with
          | true =>
            rw [exact_of_two rfl rfl plain_book_answered (Or.inl rfl)]
            simp [Kept, reachedGpu]
          | false =>
            rw [exact_of_attempt rfl (plain_book_of_error plainBody_malformed)]
            simp [Kept, reachedGpu, streamTime]
        · rw [exact_of_two rfl rfl (plain_book_refused hstatus) (Or.inr rfl)]
          simp [Kept, reachedGpu, hstatus, Ledger.seconds]
    | stream took handover =>
      cases handover with
      | raises =>
        rw [exact_of_attempt rfl stream_book_raises]
        simp [Kept, reachedGpu, streamTime, Ledger.seconds]
      | unstarted =>
        refine iff_of_true ⟨fun h => ?_, fun _ => ?_, fun _ => ?_⟩ trivial
        · cases h rfl
        · show (metered wal (.stream took .unstarted) entered).2.book.charge = 0
          rw [stream_book_unstarted]
          rfl
        · exact zero_le
      | started idle opening upstream =>
        rw [exact_of_attempt rfl stream_book_started]
        cases upstream with
        | fails reached =>
          simp [Kept, reachedGpu, streamTime, Ledger.seconds, refusedBeforeExecution, Upstream.time]
        | refuses ran readable =>
          cases readable <;>
            simp [Kept, reachedGpu, streamTime, Ledger.seconds, refusedBeforeExecution, Upstream.time]
        | sends ds last cut =>
          -- The reservation is older than the stream, so its seconds cover it.
          have hcovers : opening + ds.sum + last ≤ took + idle + opening + (ds.sum + last) := by
            rw [add_assoc, add_assoc (took + idle)]
            exact le_add_self
          cases hsweep : wal.sweeps 0 <;>
            simp [Kept, reachedGpu, streamTime, Ledger.seconds, refusedBeforeExecution,
              Upstream.time, hsweep, hcovers, Closes]

/-- A disk that takes every line, and no sweep. -/
def sound : Wal := ⟨fun _ => true, fun _ => false⟩

/-- A backend that is down: its two seconds are charged. -/
theorem down_charged : ¬ Exact ⟨sound, .reserved, .plain 2 (.fails false)⟩ := by
  intro h
  have hfree := h.free fun _ => rfl
  have hfinal : final ⟨sound, .reserved, .plain 2 (.fails false)⟩ = placed.after sound (.settled 2) :=
    plain_book_of_error plainBody_fails
  rw [hfinal, after_placed] at hfree
  simp [sound, Book.charge, Ledger.seconds] at hfree

end MlopsLite.Gateway.Meter
