import MlopsLite.HostAgent.Frames
import MlopsLite.Lib.Raising

/-!
# ChatStream — a tenant's stream

`_chat_stream`, `_delta` and `_sse_error` (`gateway/app/routers/broker_openai.py`)
over the frames of `LlamaAdapter.stream`. The generator is a program that hands out
pieces; Starlette may close it at any of them, which raises there. A cancellation
that comes while the generator waits for the agent is a failure of the agent to it.
-/

namespace MlopsLite.Gateway.ChatStream

open Utf16Json (Units Doc)
open HostAgent.Frames
open Raising (raise read modify ensure)

/-! ## `_delta` -/

/-- A number as `json.loads` has it. -/
inductive Loaded
  | int (z : ℤ)
  | float (x : Number)

def readNumber (s : List Char) : Option Loaded :=
  if s = "NaN".toList then some (.float .nan)
  else if s = "Infinity".toList then some (.float (.inf false))
  else if s = "-Infinity".toList then some (.float (.inf true))
  else if JsonTokens.isNumber s then
    if s.any ['.', 'e', 'E'].contains then some (.float (Doubles.nearest (Doubles.decimal s)))
    else some (.int ⌊Doubles.decimal s⌋)
  else none

def loads (s : List Char) : Option (Doc Loaded) := Utf16Json.parse readNumber s

def truthy : Doc Loaded → Bool
  | .null => false
  | .bool b => b
  | .num (.int z) => z ≠ 0
  | .num (.float x) => x ≠ .fin 0
  | .str s => !s.isEmpty
  | .arr items => !items.isEmpty
  | .obj members => !members.isEmpty

/-- `obj.get(name)`. -/
def get (members : List (Units × Doc Loaded)) (name : String) : Doc Loaded :=
  (members.lookup (key name)).getD .null

/-- `(obj.get("choices") or [{}])[0].get("delta", {}).get("content")`, if it does not raise. -/
def choice (members : List (Units × Doc Loaded)) : Option (Doc Loaded) :=
  let choices := get members "choices"
  match if truthy choices then choices else .arr [.obj []] with
  | .arr (.obj first :: _) =>
    match (first.lookup (key "delta")).getD (.obj []) with
    | .obj delta => some (get delta "content")
    | _ => none
  | _ => none

/-- The first of them that is not falsy. -/
def pick (members : List (Units × Doc Loaded)) : Option (Doc Loaded) :=
  if truthy (get members "token") then some (get members "token")
  else if truthy (get members "text") then some (get members "text")
  else if truthy (get members "content") then some (get members "content")
  else (choice members).map fun content => if truthy content then content else .str []

/-- `_delta`, if it does not raise. -/
def delta (chunk : List Char) : Option (Doc Loaded) :=
  let line :=
    if "data:".toList.isPrefixOf chunk then Texts.strip Texts.isSpace (chunk.drop 5)
    else Texts.strip Texts.isSpace chunk
  if line = [] ∨ line = "[DONE]".toList then some (.str [])
  else if line.head? = some '\x7b' then
    match loads line with
    | none => some (.str (line.flatMap Utf16Json.units))
    | some (.obj members) => pick members
    | some _ => none
  else some (.str (line.flatMap Utf16Json.units))

/-! ## The generator -/

/-- What a tenant is sent. -/
inductive Piece
  | error (doc : Doc Loaded)
  | chunk (doc : Doc Loaded)
  | usage (doc : Doc Loaded)
  | done

inductive Status
  | refused
  | ok
  deriving DecidableEq

inductive Settlement
  | finished
  | abandoned

/-- `closed` says that Starlette has closed the generator. -/
structure World where
  sent : List Piece
  closed : Bool
  status : Status
  refusedBeforeExecution : Bool
  settled : Option Settlement
  counts : List Status

inductive Exc
  | upstream
  | delta
  | ledger
  | generatorExit

abbrev Run := Raising World Exc

/-- `created` is the time at each piece. -/
structure Request where
  opId : Units
  model : Units
  created : ℕ → ℤ

structure Quota where
  remainingGpuSeconds : Option Number
  windowStart : Option Units

/-- `closes` is the piece at which Starlette closes the generator; the meter's call and
`quota_state` return or raise. -/
structure Server where
  closes : Option ℕ
  settles : Bool
  gpuSeconds : Number
  quota : Option Quota

/-- The agent's answer, with what arrives of its body; `clean` says that this is all. -/
inductive Upstream
  | fails
  | responds (status : ℕ) (body : List UInt8) (clean : Bool)

/-- `aiter_lines`; a line that is not over comes if the body is. -/
def aiterLines (body : List UInt8) (clean : Bool) : List (List Char) :=
  let text := UrlPath.decodeFrom 0 body
  if clean then text.splitOnP Lines.isBreak
  else ((if text.getLast? = some '\r' then text.dropLast else text).splitOnP Lines.isBreak).dropLast

/-- `yield`. -/
def emit (closes : Option ℕ) (piece : Piece) : Run Unit := fun w =>
  if w.closed then (.error .generatorExit, w)
  else if closes = some w.sent.length then
    (.error .generatorExit, { w with sent := w.sent ++ [piece], closed := true })
  else (.ok (), { w with sent := w.sent ++ [piece] })

/-- `_sse_error`. -/
def sseError (status : ℕ) (body : List Char) : Doc Loaded :=
  let code := if status = 409 ∨ status = 503 ∨ status = 507 then "gpu_busy" else "error"
  .obj [(key "error", .obj [(key "code", .str (key code)),
    (key "message", .str ((body.take 200).flatMap Utf16Json.units))])]

def chunkOf (r : Request) (created : ℤ) (content : Doc Loaded) : Doc Loaded :=
  .obj [(key "id", .str r.opId), (key "object", .str (key "chat.completion.chunk")),
    (key "created", .num (.int created)), (key "model", .str r.model),
    (key "choices", .arr [.obj [(key "index", .num (.int 0)),
      (key "delta", .obj [(key "content", content)])]])]

def usageOf (gpuSeconds : Number) (state : Quota) : Doc Loaded :=
  .obj ([(key "gpu_seconds", .num (.float (gpuSeconds.round 3))),
    (key "quota_remaining",
      (state.remainingGpuSeconds.map fun x => Doc.num (.float x)).getD .null)] ++
    (state.windowStart.map fun t => (key "window_start", Doc.str t)).toList)

/-- `async for chunk in upstream.aiter_lines()`. -/
def forward (r : Request) (closes : Option ℕ) (clean : Bool) : List (List Char) → Run Unit
  | [] => if clean then return () else raise .upstream
  | line :: lines =>
    if line = [] then forward r closes clean lines
    else
      match delta line with
      | none => raise .delta
      | some content => do
        let w ← read
        emit closes (.chunk (chunkOf r (r.created w.sent.length) content))
        forward r closes clean lines

/-- The generator's `try`. -/
def generate (r : Request) (closes : Option ℕ) : Upstream → Run Unit
  | .fails => raise .upstream
  | .responds status body clean =>
    if status ≠ 200 then
      if clean then do
        modify fun w => { w with refusedBeforeExecution := true }
        emit closes (.error (sseError status (UrlPath.decodeFrom 0 body)))
      else raise .upstream
    else do
      modify fun w => { w with status := .ok }
      forward r closes clean (aiterLines body clean)

def settle (settles : Bool) : Run Unit := fun w =>
  (if settles then .ok () else .error .ledger,
    { w with settled := some (if w.refusedBeforeExecution then .abandoned else .finished) })

def quotaState (quota : Option Quota) : Run Quota :=
  match quota with
  | some state => return state
  | none => raise .ledger

/-- The generator's `finally`. -/
def last (s : Server) : Run Unit := do
  settle s.settles
  let state ← quotaState s.quota
  emit s.closes (.usage (usageOf s.gpuSeconds state))
  emit s.closes .done
  modify fun w => { w with counts := w.counts ++ [w.status] }

def gen (r : Request) (s : Server) (u : Upstream) : Run Unit :=
  ensure (generate r s.closes u) (last s)

def start : World := ⟨[], false, .refused, false, none, []⟩

def served (r : Request) (s : Server) (u : Upstream) : World := (gen r s u start).2

/-! ## What is asked of it -/

def member (name : String) : Doc Loaded → Option (Doc Loaded)
  | .obj members => members.lookup (key name)
  | _ => none

def item : Doc Loaded → Option (Doc Loaded)
  | .arr (v :: _) => some v
  | _ => none

/-- The content of a chunk. -/
def Piece.content : Piece → Option (Doc Loaded)
  | .chunk doc =>
      (((member "choices" doc).bind item).bind (member "delta")).bind (member "content")
  | .error _ | .usage _ | .done => none

/-- Texts, one behind the other. -/
def concat : List (Doc Loaded) → Option Units
  | [] => some []
  | .str s :: rest => (concat rest).map (s ++ ·)
  | _ :: _ => none

/-- The content that a tenant was sent. -/
def said (sent : List Piece) : Option Units := concat (sent.filterMap Piece.content)

/-- The frames that the gateway received. -/
def Upstream.received (repr : Repr) (g : Generation) : Upstream → List Frame
  | .fails => []
  | .responds status body _ => if status = 200 then g.received repr body.length else []

/-- The stream is faithful, and truthfully counted. -/
structure Truthful (repr : Repr) (g : Generation) (u : Upstream) (w : World) : Prop where
  faithful : said w.sent = some ((u.received repr g).filterMap Frame.token?).flatten
  once : w.counts.length = 1
  status : .ok ∈ w.counts ↔ g.last ∈ u.received repr g

/-- The body of an answer is the agent's stream, cut at some byte. -/
def Upstream.FromAgent (repr : Repr) (g : Generation) (u : Upstream) : Prop :=
  ∀ body clean, u = .responds 200 body clean → body <+: stream repr g.events

/-- How many pieces the generator has, where a stream is not cut. -/
def Upstream.pieces (g : Generation) : Upstream → ℕ
  | .fails => 2
  | .responds status _ clean =>
      if status = 200 then g.events.length + 2 else if clean then 3 else 2

/-- The stream comes to its end, and the generator to its own. -/
structure Ends (repr : Repr) (g : Generation) (s : Server) (u : Upstream) : Prop where
  settles : s.settles = true
  quota : s.quota.isSome = true
  stays : ∀ i ∈ s.closes, u.pieces g ≤ i
  whole : ∀ body clean, u = .responds 200 body clean →
    (stream repr g.events).length ≤ body.length

variable {repr : Repr} {g : Generation} {r : Request} {s : Server} {u : Upstream} {w : World}

/-! ## A frame's line -/

/-- The text of a number is JSON's. -/
def Spelled (repr : Repr) (n : PyNumber) : Prop := JsonTokens.isNumber (write repr n) = true

theorem Spelled.atoms {n : PyNumber} (h : Spelled repr n) :
    (write repr n).all JsonTokens.atomChar = true := by
  rw [Spelled, JsonTokens.isNumber, Bool.and_eq_true] at h
  exact h.1

/-- The number that is read where this one was written. -/
def readBack (repr : Repr) (n : PyNumber) : Loaded := (readNumber (write repr n)).getD (.int 0)

theorem reads_back {n : PyNumber} (h : Spelled repr n) :
    Utf16Json.Reads (write repr) readNumber (readBack repr) n := by
  refine reads_of_isNumber h ?_
  have hread : (readNumber (write repr n)).isSome = true := by
    have hnumber : JsonTokens.isNumber (write repr n) = true := h
    simp only [readNumber, hnumber, if_true]
    split_ifs <;> rfl
  obtain ⟨x, hx⟩ := Option.isSome_iff_exists.mp hread
  rw [readBack, hx, Option.getD_some]

/-- The numbers of a generation are spelled as JSON's. -/
structure Spells (repr : Repr) (g : Generation) : Prop where
  loadMs : Spelled repr g.loadMs
  inferMs : Spelled repr g.inferMs

theorem wellFormed_event (h : Spells repr g) {f : Frame} (hf : f ∈ g.frames) :
    (Doc.obj f.event).WellFormed (Spelled repr) := by
  simp only [Generation.frames, Generation.last, List.mem_cons, List.mem_append, List.mem_map,
    List.not_mem_nil, or_false] at hf
  rcases hf with rfl | ⟨t, -, rfl⟩ | rfl
  · have hkeys : [key "event", key "load_ms", key "model"].Nodup := by decide
    refine .obj hkeys ?_
    rw [Frame.event, List.forall_mem_cons, List.forall_mem_cons, List.forall_mem_singleton]
    exact ⟨.str _, .num h.loadMs, .str _⟩
  · have hkeys : [key "event", key "text"].Nodup := by decide
    refine .obj hkeys ?_
    rw [Frame.event, List.forall_mem_cons, List.forall_mem_singleton]
    exact ⟨.str _, .str _⟩
  · have hkeys : [key "event", key "infer_ms", key "tokens", key "model"].Nodup := by decide
    refine .obj hkeys ?_
    rw [Frame.event, List.forall_mem_cons, List.forall_mem_cons, List.forall_mem_cons,
      List.forall_mem_singleton]
    exact ⟨.str _, .num h.inferMs, .num (isNumber_int _), .str _⟩

/-- A frame without a text gives an empty one. -/
theorem pick_event (f : Frame) :
    pick (f.event.map fun m => (m.1, m.2.map (readBack repr))) =
      some (.str (f.token?.getD [])) := by
  cases f with
  | start loadMs model => rfl
  | token text =>
    cases text with
    | nil => rfl
    | cons u text => rfl
  | done inferMs tokens model => rfl

theorem delta_line (h : Spells repr g) {f : Frame} (hf : f ∈ g.frames) :
    delta (line repr f.event) = some (.str (f.token?.getD [])) := by
  obtain ⟨t, ht⟩ := dumps_event repr f.event
  have hpayload : Texts.strip Texts.isSpace ((line repr f.event).drop 5) =
      Utf16Json.dumps [' '] (write repr) (.obj f.event) :=
    strip_drop_line (by decide) (by decide) (by decide) f.event
  have hstarts : "data:".toList.isPrefixOf (line repr f.event) = true := rfl
  have hnot : ¬ (Utf16Json.dumps [' '] (write repr) (.obj f.event) = [] ∨
      Utf16Json.dumps [' '] (write repr) (.obj f.event) = "[DONE]".toList) := by
    rw [ht]
    rintro (h | h)
    · cases h
    · exact absurd (List.cons.inj h).1 (by decide)
  have hhead : (Utf16Json.dumps [' '] (write repr) (.obj f.event)).head? = some '\x7b' := by
    rw [ht]
    rfl
  have hloads : loads (Utf16Json.dumps [' '] (write repr) (.obj f.event)) =
      some (.obj (f.event.map fun m => (m.1, m.2.map (readBack repr)))) := by
    rw [loads, Utf16Json.parse_dumps rfl (fun _ => reads_back) (wellFormed_event h hf), Doc.map_obj]
  simp only [delta, hstarts, if_true, hpayload, if_neg hnot, hhead, hloads, pick_event]

theorem isBreak_of_printable {c : Char} (h : Utf16Json.Printable c) : Lines.isBreak c = false := by
  obtain ⟨hlow, hhigh⟩ := h
  simp only [Lines.isBreak, Bool.or_eq_false_iff, decide_eq_false_iff_not]
  omega

/-- Of the whole stream the gateway has the lines of the frames, however it ends. -/
theorem lines_stream (h : Spells repr g) (clean : Bool) :
    (aiterLines (stream repr g.events) clean).filter (· ≠ []) =
      g.frames.map fun f => line repr f.event := by
  have hwell : ∀ event ∈ g.events, (Doc.obj event).WellFormed (Spelled repr) := by
    intro event hevent
    obtain ⟨f, hf, rfl⟩ := List.mem_map.mp hevent
    exact wellFormed_event h hf
  have hdecode : UrlPath.decodeFrom 0 (stream repr g.events) = text repr g.events := by
    rw [← encode_text]
    exact UrlPath.decodeFrom_flatMap _
  have hsplit : (text repr g.events).splitOnP Lines.isBreak =
      (g.events.flatMap fun event => [line repr event, []]) ++ [[]] :=
    splitOnP_text (fun _ => Spelled.atoms) (by decide) (fun _ => isBreak_of_printable) hwell
  have hlast : ¬ (text repr g.events).getLast? = some '\r' := by
    have hevents : g.events = (.start g.loadMs g.model :: g.texts.map .token : List Frame).map
        Frame.event ++ [g.last.event] := by
      simp [Generation.events, Generation.frames]
    have htwo : ∀ s : List Char, s ++ ['\n', '\n'] = (s ++ ['\n']) ++ ['\n'] := by simp
    rw [hevents, text, List.flatMap_append, List.flatMap_singleton, htwo, ← List.append_assoc,
      List.getLast?_concat]
    decide
  have hfilter : ∀ events : List Event,
      (events.flatMap fun event => [line repr event, []]).filter (· ≠ []) =
        events.map (line repr) := by
    intro events
    induction events with
    | nil => rfl
    | cons event events ih =>
      rw [List.flatMap_cons, List.filter_append, ih]
      simp [line_ne_nil]
  have hlines : (aiterLines (stream repr g.events) clean).filter (· ≠ []) =
      (g.events.flatMap fun event => [line repr event, []]).filter (· ≠ []) := by
    cases clean with
    | false => simp only [aiterLines, hdecode, if_neg hlast, hsplit, List.dropLast_concat,
        Bool.false_eq_true, if_false]
    | true => simp [aiterLines, hdecode, hsplit]
  rw [hlines, hfilter, Generation.events, List.map_map]
  rfl

/-! ## Pieces -/

variable {closes : Option ℕ} {piece : Piece}

theorem emit_of_closed (h : w.closed = true) : emit closes piece w = (.error .generatorExit, w) := by
  simp [emit, h]

theorem emit_of_closes (h : w.closed = false) (hi : closes = some w.sent.length) :
    emit closes piece w =
      (.error .generatorExit, { w with sent := w.sent ++ [piece], closed := true }) := by
  simp [emit, h, hi]

theorem emit_of_stays (h : w.closed = false) (hi : closes ≠ some w.sent.length) :
    emit closes piece w = (.ok (), { w with sent := w.sent ++ [piece] }) := by
  simp [emit, h, hi]

/-- A piece more, and nothing else but the closing. -/
theorem emit_frame (closes : Option ℕ) (piece : Piece) (w : World) :
    (emit closes piece w).2.status = w.status ∧ (emit closes piece w).2.counts = w.counts := by
  simp only [emit]
  split_ifs <;> exact ⟨rfl, rfl⟩

theorem forward_frame (clean : Bool) (lines : List (List Char)) (w : World) :
    (forward r closes clean lines w).2.status = w.status ∧
      (forward r closes clean lines w).2.counts = w.counts := by
  induction lines generalizing w with
  | nil => cases clean <;> exact ⟨rfl, rfl⟩
  | cons line lines ih =>
    rw [forward]
    split_ifs with hblank
    · exact ih w
    · cases hdelta : delta line with
      | none => exact ⟨rfl, rfl⟩
      | some content =>
        generalize hpiece : Piece.chunk (chunkOf r (r.created w.sent.length) content) = piece
        have hemit := emit_frame closes piece w
        simp only [Raising.bind_apply, Raising.read_apply, hpiece]
        cases he : emit closes piece w with
        | mk result w' =>
          rw [he] at hemit
          cases result with
          | error e => exact hemit
          | ok a => exact ⟨(ih w').1.trans hemit.1, (ih w').2.trans hemit.2⟩

theorem content_chunkOf (created : ℤ) (content : Doc Loaded) :
    (Piece.chunk (chunkOf r created content)).content = some content := rfl

/-- Lines that give contents are sent on, if the generator is not closed meanwhile. -/
theorem forward_of_stays {closes : Option ℕ} {lines : List (List Char)} {contents : List (Doc Loaded)}
    (hlines : (lines.filter (· ≠ [])).map delta = contents.map some) (hopen : w.closed = false)
    (hstays : ∀ i ∈ closes, w.sent.length ≤ i → w.sent.length + contents.length ≤ i)
    (r : Request) (clean : Bool) :
    (forward r closes clean lines w).2.closed = false ∧
      (forward r closes clean lines w).2.sent.length = w.sent.length + contents.length ∧
      (forward r closes clean lines w).2.sent.filterMap Piece.content =
        w.sent.filterMap Piece.content ++ contents := by
  induction lines generalizing w contents with
  | nil =>
    obtain rfl : contents = [] := by simpa using hlines.symm
    cases clean <;> simp [forward, hopen]
  | cons line lines ih =>
    rw [forward]
    by_cases hblank : line = []
    · rw [if_pos hblank]
      exact ih (by simpa [hblank] using hlines) hopen hstays
    · rw [List.filter_cons_of_pos (by simpa using hblank), List.map_cons] at hlines
      obtain ⟨content, contents, rfl⟩ : ∃ c cs, contents = c :: cs := by
        cases contents with
        | nil => cases hlines
        | cons c cs => exact ⟨c, cs, rfl⟩
      obtain ⟨hdelta, hrest⟩ := List.cons.inj hlines
      have hi : closes ≠ some w.sent.length := by
        rintro rfl
        have := hstays _ rfl le_rfl
        simp at this
      generalize hpiece : Piece.chunk (chunkOf r (r.created w.sent.length) content) = piece
      have hcontent : piece.content = some content := hpiece ▸ content_chunkOf _ _
      obtain ⟨hclosed, hlength, hcontents⟩ :=
        ih (w := { w with sent := w.sent ++ [piece] }) hrest hopen (by
          intro i hi hle
          rw [List.length_append, List.length_singleton] at hle ⊢
          have := hstays i hi (by omega)
          rw [List.length_cons] at this
          omega)
      rw [if_neg hblank, hdelta]
      simp only [Raising.bind_apply, Raising.read_apply, hpiece, emit_of_stays hopen hi]
      refine ⟨hclosed, ?_, ?_⟩
      · simp only [hlength, List.length_append, List.length_cons, List.length_nil]
        omega
      · rw [hcontents, List.filterMap_append, List.append_assoc]
        simp [hcontent]

/-- Closed at one of the chunks, the generator stays closed. -/
theorem forward_of_closes {lines : List (List Char)} {contents : List (Doc Loaded)}
    (hlines : (lines.filter (· ≠ [])).map delta = contents.map some) (hopen : w.closed = false)
    {i : ℕ} (hi : w.sent.length ≤ i) (hlt : i < w.sent.length + contents.length) (clean : Bool) :
    (forward r (some i) clean lines w).2.closed = true := by
  induction lines generalizing w contents with
  | nil =>
    obtain rfl : contents = [] := by simpa using hlines.symm
    simp only [List.length_nil] at hlt
    omega
  | cons line lines ih =>
    rw [forward]
    by_cases hblank : line = []
    · rw [if_pos hblank]
      exact ih (by simpa [hblank] using hlines) hopen hi hlt
    · rw [List.filter_cons_of_pos (by simpa using hblank), List.map_cons] at hlines
      obtain ⟨content, contents, rfl⟩ : ∃ c cs, contents = c :: cs := by
        cases contents with
        | nil => cases hlines
        | cons c cs => exact ⟨c, cs, rfl⟩
      obtain ⟨hdelta, hrest⟩ := List.cons.inj hlines
      generalize hpiece : Piece.chunk (chunkOf r (r.created w.sent.length) content) = piece
      rw [if_neg hblank, hdelta]
      by_cases hnow : some i = some w.sent.length
      · simp only [Raising.bind_apply, Raising.read_apply, hpiece, emit_of_closes hopen hnow]
      · have hne : i ≠ w.sent.length := fun h => hnow (congrArg some h)
        simp only [Raising.bind_apply, Raising.read_apply, hpiece, emit_of_stays hopen hnow]
        refine ih hrest hopen ?_ ?_
        all_goals
          simp only [List.length_append, List.length_cons, List.length_nil] at hlt ⊢
          omega

/-! ## The end -/

/-- The `finally` comes to its end from here. -/
def Finishes (s : Server) (w : World) : Prop :=
  s.settles = true ∧ s.quota.isSome = true ∧ w.closed = false ∧
    s.closes ≠ some w.sent.length ∧ s.closes ≠ some (w.sent.length + 1)

theorem last_of_finishes (h : Finishes s w) : (last s w).2.counts = w.counts ++ [w.status] ∧
    said (last s w).2.sent = said w.sent := by
  obtain ⟨hsettles, hquota, hopen, hfirst, hsecond⟩ := h
  obtain ⟨state, hstate⟩ := Option.isSome_iff_exists.mp hquota
  have hnone : [Piece.usage (usageOf s.gpuSeconds state), .done].filterMap Piece.content = [] := rfl
  simp [last, settle, hsettles, quotaState, hstate, emit, hopen, hfirst, hsecond, said, hnone]

/-- Otherwise nothing is counted: the count is behind all of it. -/
theorem last_of_not_finishes (h : ¬ Finishes s w) : (last s w).2.counts = w.counts := by
  by_cases hsettles : s.settles = true
  · cases hstate : s.quota with
    | none => simp [last, settle, hsettles, quotaState, hstate]
    | some state =>
      by_cases hopen : w.closed = false
      · by_cases hfirst : s.closes = some w.sent.length
        · simp [last, settle, hsettles, quotaState, hstate, emit, hopen, hfirst]
        · have hsecond : s.closes = some (w.sent.length + 1) := by
            by_contra hsecond
            exact h ⟨hsettles, by rw [hstate]; rfl, hopen, hfirst, hsecond⟩
          simp [last, settle, hsettles, quotaState, hstate, emit, hopen, hsecond]
      · rw [Bool.not_eq_false] at hopen
        simp [last, settle, hsettles, quotaState, hstate, emit, hopen]
  · simp [last, settle, hsettles]

theorem finishes_iff (hopen : w.closed = false) (hpast : ∀ i ∈ s.closes, w.sent.length ≤ i) :
    Finishes s w ↔
      s.settles = true ∧ s.quota.isSome = true ∧ ∀ i ∈ s.closes, w.sent.length + 2 ≤ i := by
  rw [Finishes, and_iff_right hopen]
  refine and_congr_right fun _ => and_congr_right fun _ => ?_
  constructor
  · rintro ⟨hfirst, hsecond⟩ i hi
    have hle := hpast i hi
    have hne : i ≠ w.sent.length := fun h => hfirst (h ▸ hi)
    have hne' : i ≠ w.sent.length + 1 := fun h => hsecond (h ▸ hi)
    omega
  · intro h
    constructor
    · intro hi
      have := h _ hi
      omega
    · intro hi
      have := h _ hi
      omega

theorem generate_counts (u : Upstream) : (generate r closes u start).2.counts = [] := by
  cases u with
  | fails => rfl
  | responds status body clean =>
    rw [generate]
    split_ifs
    · exact (emit_frame _ _ _).2
    · rfl
    · exact (forward_frame clean _ _).2

/-- The status is set in front of the first frame. -/
theorem generate_status (body : List UInt8) (clean : Bool) :
    (generate r closes (.responds 200 body clean) start).2.status = .ok :=
  (forward_frame clean _ _).1

/-- What the `try` leaves behind decides. -/
theorem truthful_served_iff : Truthful repr g u (served r s u) ↔
    Finishes s (generate r s.closes u start).2 ∧
      said (generate r s.closes u start).2.sent =
        some ((u.received repr g).filterMap Frame.token?).flatten ∧
      ((generate r s.closes u start).2.status = .ok ↔ g.last ∈ u.received repr g) := by
  have hserved : served r s u = (last s (generate r s.closes u start).2).2 := Raising.ensure_snd
  have hcounts : (generate r s.closes u start).2.counts = [] := generate_counts u
  rw [hserved]
  generalize (generate r s.closes u start).2 = w at *
  by_cases h : Finishes s w
  · obtain ⟨hlast, hsaid⟩ := last_of_finishes h
    rw [hcounts, List.nil_append] at hlast
    rw [and_iff_right h]
    constructor
    · intro ht
      refine ⟨hsaid ▸ ht.faithful, ?_⟩
      rw [← ht.status, hlast, List.mem_singleton, eq_comm]
    · rintro ⟨hfaithful, hstatus⟩
      refine ⟨hsaid ▸ hfaithful, by rw [hlast]; rfl, ?_⟩
      rw [hlast, List.mem_singleton, eq_comm, hstatus]
  · refine iff_of_false ?_ fun hall => h hall.1
    intro ht
    have honce := ht.once
    rw [last_of_not_finishes h, hcounts] at honce
    cases honce

/-! ## The three answers -/

/-- Without a chunk there is nothing to be untrue. -/
theorem truthful_iff_of_silent (hsaid : said (generate r s.closes u start).2.sent = some [])
    (hstatus : (generate r s.closes u start).2.status = .refused)
    (hreceived : u.received repr g = []) :
    Truthful repr g u (served r s u) ↔ Finishes s (generate r s.closes u start).2 := by
  rw [truthful_served_iff, hreceived, hstatus, hsaid]
  simp

theorem ends_iff_of_silent (h : ∀ body clean, u ≠ .responds 200 body clean) :
    Ends repr g s u ↔
      s.settles = true ∧ s.quota.isSome = true ∧ ∀ i ∈ s.closes, u.pieces g ≤ i :=
  ⟨fun e => ⟨e.settles, e.quota, e.stays⟩,
    fun e => ⟨e.1, e.2.1, e.2.2, fun body clean hu => absurd hu (h body clean)⟩⟩

/-- The last frame arrives with the last byte. -/
theorem last_mem_received {n : ℕ} :
    g.last ∈ g.received repr n ↔ (stream repr g.events).length ≤ n := by
  rw [← length_arrived, Generation.received, Generation.events, List.length_map]
  generalize (arrived repr n (g.frames.map Frame.event)).length = k
  constructor
  · intro hmem
    by_contra hlt
    have hfront : g.last ∈ (.start g.loadMs g.model :: g.texts.map .token : List Frame) := by
      rw [Generation.frames, ← List.cons_append, List.take_append_of_le_length] at hmem
      · exact List.mem_of_mem_take hmem
      · simpa [Generation.frames] using hlt
    simp [Generation.last] at hfront
  · intro hle
    rw [List.take_of_length_le hle]
    simp [Generation.frames]

/-- What the frames say, one behind the other, is what the tokens say. -/
theorem concat_frames (frames : List Frame) :
    concat (frames.map fun f => .str (f.token?.getD [])) =
      some (frames.filterMap Frame.token?).flatten := by
  induction frames with
  | nil => rfl
  | cons f frames ih =>
    rw [List.map_cons, concat, ih]
    cases f with
    | start loadMs model => rfl
    | token text => rfl
    | done inferMs tokens model => rfl

/-- A refusal is one piece. -/
theorem finishes_refusal {status : ℕ} (hstatus : status ≠ 200) (body : List UInt8) :
    Finishes s (generate r s.closes (.responds status body true) start).2 ↔
      s.settles = true ∧ s.quota.isSome = true ∧ ∀ i ∈ s.closes, 3 ≤ i := by
  simp only [generate, if_pos hstatus, if_true, Raising.bind_apply, Raising.modify_apply]
  by_cases hi : s.closes = some 0
  · rw [emit_of_closes rfl hi]
    refine iff_of_false (fun h => by cases h.2.2.1) fun h => ?_
    exact absurd (h.2.2 0 hi) (by omega)
  · rw [emit_of_stays rfl hi, finishes_iff rfl]
    · rfl
    · intro i hmem
      show 1 ≤ i
      refine Nat.one_le_iff_ne_zero.mpr ?_
      rintro rfl
      exact hi hmem

theorem refusal_silent (r : Request) (closes : Option ℕ) {status : ℕ} (hstatus : status ≠ 200)
    (body : List UInt8) :
    said (generate r closes (.responds status body true) start).2.sent = some [] ∧
      (generate r closes (.responds status body true) start).2.status = .refused := by
  simp only [generate, if_pos hstatus, if_true, Raising.bind_apply, Raising.modify_apply, emit]
  split_ifs <;> exact ⟨rfl, rfl⟩

/-- A whole stream is sent on, if the generator is not closed meanwhile. -/
theorem finishes_whole (h : Spells repr g) (clean : Bool) :
    let w := (generate r s.closes (.responds 200 (stream repr g.events) clean) start).2
    (Finishes s w ↔
      s.settles = true ∧ s.quota.isSome = true ∧ ∀ i ∈ s.closes, g.events.length + 2 ≤ i) ∧
    (Finishes s w → said w.sent = some (g.frames.filterMap Frame.token?).flatten) := by
  intro w
  have hw : (forward r s.closes clean (aiterLines (stream repr g.events) clean)
      { start with status := .ok }).2 = w := rfl
  have hlines : ((aiterLines (stream repr g.events) clean).filter (· ≠ [])).map delta =
      (g.frames.map fun f => Doc.str (f.token?.getD [])).map some := by
    rw [lines_stream h, List.map_map, List.map_map]
    exact List.map_congr_left fun f hf => delta_line h hf
  have hcount : (g.frames.map fun f => (Doc.str (f.token?.getD []) : Doc Loaded)).length =
      g.events.length := by
    rw [Generation.events, List.length_map, List.length_map]
  by_cases hcloses : ∃ i ∈ s.closes, i < g.events.length
  · obtain ⟨i, hi, hlt⟩ := hcloses
    have hclosed : w.closed = true := by
      rw [← hw, show s.closes = some i from hi]
      refine forward_of_closes hlines rfl (Nat.zero_le i) ?_ clean
      rw [hcount]
      exact hlt.trans_le (Nat.le_add_left _ _)
    have hnot : ¬ Finishes s w := fun hf => by
      rw [hf.2.2.1] at hclosed
      cases hclosed
    refine ⟨iff_of_false hnot ?_, fun hf => absurd hf hnot⟩
    rintro ⟨-, -, hstays⟩
    have := hstays i hi
    omega
  · push Not at hcloses
    have hpast : ∀ i ∈ s.closes, ([] : List Piece).length ≤ i → ([] : List Piece).length +
        (g.frames.map fun f => (Doc.str (f.token?.getD []) : Doc Loaded)).length ≤ i := by
      intro i hi _
      rw [hcount]
      exact (Nat.zero_add _).trans_le (hcloses i hi)
    obtain ⟨hopen, hlength, hcontents⟩ := forward_of_stays (w := { start with status := .ok })
      hlines rfl hpast r clean
    rw [hw] at hopen hlength hcontents
    have hsent : w.sent.length = g.events.length := by
      rw [hlength, hcount]
      exact Nat.zero_add _
    constructor
    · rw [finishes_iff hopen (by rw [hsent]; exact hcloses), hsent]
    · intro _
      rw [said, hcontents]
      exact concat_frames g.frames

/-- A stream is faithful and truthfully counted exactly if it comes to its end, and
the generator to its own. -/
theorem truthful_iff (r : Request) (s : Server) (h : Spells repr g) (hu : u.FromAgent repr g) :
    Truthful repr g u (served r s u) ↔ Ends repr g s u := by
  have hsilent : Finishes s start ↔
      s.settles = true ∧ s.quota.isSome = true ∧ ∀ i ∈ s.closes, 2 ≤ i :=
    finishes_iff rfl fun _ _ => Nat.zero_le _
  cases u with
  | fails =>
    rw [truthful_iff_of_silent rfl rfl rfl, ends_iff_of_silent (by simp)]
    exact hsilent
  | responds status body clean =>
    by_cases hstatus : status = 200
    · subst hstatus
      by_cases hwhole : (stream repr g.events).length ≤ body.length
      · obtain rfl := (hu body clean rfl).eq_of_length_le hwhole
        obtain ⟨hfinishes, hsaid⟩ := finishes_whole (r := r) (s := s) h clean
        have hreceived : (Upstream.responds 200 (stream repr g.events) clean).received repr g =
            g.frames := by
          have hall := length_arrived.mpr hwhole
          rw [Generation.events, List.length_map] at hall
          rw [Upstream.received, if_pos rfl, Generation.received]
          exact List.take_of_length_le hall
        have hlast : g.last ∈ g.frames := by simp [Generation.frames]
        rw [truthful_served_iff, hreceived, generate_status, hfinishes]
        constructor
        · rintro ⟨⟨hsettles, hquota, hstays⟩, -⟩
          exact ⟨hsettles, hquota, hstays, fun _ _ heq => by cases heq; exact le_rfl⟩
        · intro e
          have hends := And.intro e.settles (And.intro e.quota e.stays)
          exact ⟨hends, hsaid (hfinishes.mpr hends), iff_of_true rfl hlast⟩
      · refine iff_of_false ?_ fun e => hwhole (e.whole body clean rfl)
        rw [truthful_served_iff, generate_status]
        rintro ⟨-, -, hlast⟩
        exact hwhole (last_mem_received.mp (hlast.mp rfl))
    · have hne : ∀ body' clean',
          Upstream.responds status body clean ≠ .responds 200 body' clean' := by
        rintro body' clean' heq
        exact hstatus (by injection heq)
      have hreceived : (Upstream.responds status body clean).received repr g = [] :=
        if_neg hstatus
      rw [ends_iff_of_silent hne, Upstream.pieces, if_neg hstatus]
      cases clean with
      | false =>
        have hgenerate : (generate r s.closes (.responds status body false) start).2 = start := by
          simp [generate, hstatus]
        rw [truthful_iff_of_silent (by rw [hgenerate]; rfl) (by rw [hgenerate]; rfl) hreceived,
          hgenerate]
        exact hsilent
      | true =>
        obtain ⟨hsaid, hrefused⟩ := refusal_silent r s.closes hstatus body
        rw [truthful_iff_of_silent hsaid hrefused hreceived, finishes_refusal hstatus, if_pos rfl]

/-! ## Two streams -/

def greeting : Generation :=
  ⟨.float ⟨1 / 2, Doubles.exact_half⟩, key "llm", [key "Hi", [0x20, 0xd83d, 0xde00]], .int 9,
    key "llm"⟩

def asked : Request := ⟨key "req-1", key "llm", fun n => 1700000000 + n⟩

/-- Starlette stays, and the store answers. -/
def steady : Server := ⟨none, true, .fin (1 / 2), some ⟨some (.fin 60), none⟩⟩

def whole : Upstream := .responds 200 (stream reprHalf greeting.events) true

/-- The engine's child dies behind the first token. -/
def cut : Upstream := .responds 200 (stream reprHalf (greeting.events.take 2)) true

theorem spells_greeting : Spells reprHalf greeting where
  loadMs := by
    show JsonTokens.isNumber "0.5".toList = true
    decide
  inferMs := isNumber_int 9

theorem whole_truthful :
    Truthful reprHalf greeting whole (served asked steady whole) := by
  refine (truthful_iff asked steady spells_greeting ?_).mpr ⟨rfl, rfl, by simp [steady], ?_⟩
  · intro body clean h
    cases h
    exact List.prefix_rfl
  · intro body clean h
    cases h
    exact le_rfl

/-- It is counted as one that went well. -/
theorem cut_untruthful : cut.FromAgent reprHalf greeting ∧
    ¬ Truthful reprHalf greeting cut (served asked steady cut) := by
  constructor
  · intro body clean h
    cases h
    exact stream_take_prefix 2 _
  · intro h
    have hshort : (stream reprHalf (greeting.events.take 2)).length <
        (stream reprHalf greeting.events).length := length_stream_take (by decide)
    rw [truthful_served_iff, cut, generate_status, Upstream.received, if_pos rfl,
      last_mem_received] at h
    exact absurd (h.2.2.mp rfl) (Nat.not_le.mpr hshort)

end MlopsLite.Gateway.ChatStream
