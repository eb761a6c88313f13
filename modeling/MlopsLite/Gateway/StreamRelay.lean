import MlopsLite.Lib.Marker

/-!
# StreamRelay — the token stream passed on to the client

The generator behind `POST /infer/stream` in `gateway/app/routers/stream.py`: one
frame of its own, then every chunk of the supervisor as it came, while it looks
for the terminal `done` frame.
-/

namespace MlopsLite.Gateway.StreamRelay

abbrev Bytes := List UInt8

def ascii (s : String) : Bytes := s.toList.map fun c => c.toNat.toUInt8

/-- `_DONE_MARKER`. -/
def doneMarker : Bytes := ascii "\"event\": \"done\""

def dataMarker : Bytes := ascii "data:"

/-- `bytes.count`, which counts occurrences that do not overlap: the next `skip` bytes
belong to the last one. -/
def count (needle : Bytes) (skip : ℕ) : Bytes → ℕ
  | [] => 0
  | byte :: rest =>
    match skip with
    | skip + 1 => count needle skip rest
    | 0 =>
      if needle <+: byte :: rest then count needle (needle.length - 1) rest + 1
      else count needle 0 rest

inductive Event
  | metadata (predictionId model : String) (version : Option String)
  | error (detail : String)

/-- What the generator yields: `_sse` of an event, or a chunk as it came. -/
inductive Frame
  | own (event : Event)
  | passed (chunk : Bytes)

def Frame.bytes : Frame → Bytes
  | .own _ => []
  | .passed chunk => chunk

/-- The supervisor's bytes in the frames of a response. -/
def forwarded (frames : List Frame) : Bytes := frames.flatMap Frame.bytes

/-- How the chunks of a response end. -/
inductive Ending
  | closed
  | httpError (e : String)
  | disconnected
  deriving DecidableEq

inductive Upstream
  | unreachable (e : String)
  | response (status : ℕ) (chunks : List Bytes) (ending : Ending)

inductive Outcome
  | error
  | completed
  | truncated
  | cancelled
  deriving DecidableEq

/-- What the generator has in hand while it reads chunks. -/
structure Relay where
  frames : ℕ
  sawDone : Bool
  doneTail : Bytes
  yielded : List Frame

def Relay.start (first : Event) : Relay where
  frames := 0
  sawDone := false
  doneTail := []
  yielded := [.own first]

/-- `window[-n:]` for a positive `n`. -/
def lastOf (n : ℕ) (window : Bytes) : Bytes := window.drop (window.length - n)

/-- One turn of the loop over `r.aiter_raw()`. -/
def Relay.pass (r : Relay) (chunk : Bytes) : Relay :=
  let window := r.doneTail ++ chunk
  let r := { r with frames := r.frames + count dataMarker 0 chunk }
  let r :=
    if r.sawDone then r
    else if doneMarker <:+: window then { r with sawDone := true }
    else { r with doneTail := lastOf doneMarker.length window }
  { r with yielded := r.yielded ++ [.passed chunk] }

/-- What is emitted as the trace once the generator ends. -/
structure Trace where
  ok : Bool
  outcome : Outcome
  errorDetail : Option String
  tokenFrames : ℕ
  deriving DecidableEq

structure Served where
  relay : Relay
  trace : Trace

def Relay.failed (r : Relay) (detail : String) : Served where
  relay := { r with yielded := r.yielded ++ [.own (.error detail)] }
  trace := ⟨false, .error, some detail, r.frames⟩

def Relay.left (r : Relay) : Served where
  relay := r
  trace := ⟨false, .cancelled, some "client disconnected mid-stream", r.frames⟩

/-- After the loop: only a delivered terminal frame proves a complete stream. -/
def Relay.ended (r : Relay) : Served where
  relay := r
  trace :=
    if r.sawDone then ⟨true, .completed, none, r.frames⟩
    else ⟨false, .truncated, some "stream closed before done frame", r.frames⟩

def unreachableText (e : String) : String := "serving unreachable: " ++ e

/-- `gen`; `decode` is `bytes.decode("utf-8", "ignore")`. -/
def gen (decode : Bytes → List Char) (first : Event) : Upstream → Served
  | .unreachable e => (Relay.start first).failed (unreachableText e)
  | .response status chunks ending =>
    if status ≠ 200 then
      -- the whole body is read before anything of it is shown
      match ending with
      | .closed => (Relay.start first).failed (String.ofList ((decode chunks.flatten).take 200))
      | .httpError e => (Relay.start first).failed (unreachableText e)
      | .disconnected => (Relay.start first).left
    else
      let r := chunks.foldl Relay.pass (Relay.start first)
      match ending with
      | .closed => r.ended
      | .httpError e => r.failed (unreachableText e)
      | .disconnected => r.left

/-- `quality.log_prediction` is called for a completed stream only. -/
def Served.logged (s : Served) : Bool := s.trace.outcome = .completed

/-! ## The chunks of a response -/

/-- The part of the relay that looks for the marker. -/
def Relay.scan (r : Relay) : Marker.Scan UInt8 := ⟨r.sawDone, r.doneTail⟩

theorem doneMarker_ne_nil : doneMarker ≠ [] := by decide

@[simp] theorem scan_start (first : Event) : (Relay.start first).scan = Marker.start := rfl

theorem scan_pass (r : Relay) (chunk : Bytes) :
    (r.pass chunk).scan = r.scan.feed doneMarker chunk := by
  unfold Relay.pass Marker.Scan.feed
  by_cases hdone : r.sawDone = true
  · simp [Relay.scan, hdone]
  · by_cases hhere : doneMarker <:+: r.doneTail ++ chunk
    · simp [Relay.scan, hdone, hhere]
    · simp [Relay.scan, hdone, hhere, lastOf, Marker.keepLast]

theorem yielded_pass (r : Relay) (chunk : Bytes) :
    (r.pass chunk).yielded = r.yielded ++ [.passed chunk] := by
  unfold Relay.pass
  by_cases hdone : r.sawDone = true
  · simp [hdone]
  · by_cases hhere : doneMarker <:+: r.doneTail ++ chunk <;> simp [hdone, hhere]

theorem scan_foldl (r : Relay) (chunks : List Bytes) :
    (chunks.foldl Relay.pass r).scan = chunks.foldl (Marker.Scan.feed doneMarker) r.scan := by
  induction chunks generalizing r with
  | nil => rfl
  | cons chunk rest ih =>
    show (rest.foldl Relay.pass (r.pass chunk)).scan = _
    rw [ih, scan_pass]
    rfl

theorem yielded_foldl (r : Relay) (chunks : List Bytes) :
    (chunks.foldl Relay.pass r).yielded = r.yielded ++ chunks.map .passed := by
  induction chunks generalizing r with
  | nil => simp
  | cons chunk rest ih =>
    show (rest.foldl Relay.pass (r.pass chunk)).yielded = _
    rw [ih, yielded_pass]
    simp

theorem forwarded_append (a b : List Frame) : forwarded (a ++ b) = forwarded a ++ forwarded b := by
  simp [forwarded]

@[simp] theorem forwarded_own (event : Event) : forwarded [.own event] = [] := rfl

theorem forwarded_passed (chunks : List Bytes) :
    forwarded (chunks.map .passed) = chunks.flatten := by
  induction chunks with
  | nil => rfl
  | cons chunk rest ih =>
    show chunk ++ forwarded (rest.map .passed) = _
    rw [ih]
    rfl

/-- The relay after the last chunk. -/
theorem forwarded_foldl (first : Event) (chunks : List Bytes) :
    forwarded (chunks.foldl Relay.pass (Relay.start first)).yielded = chunks.flatten := by
  rw [yielded_foldl, forwarded_append, forwarded_passed]
  simp [Relay.start]

theorem sawDone_foldl (first : Event) (chunks : List Bytes) :
    (chunks.foldl Relay.pass (Relay.start first)).sawDone = true ↔
      doneMarker <:+: chunks.flatten := by
  have hscan := scan_foldl (Relay.start first) chunks
  have hfound := Marker.found_iff doneMarker_ne_nil chunks
  rwa [Marker.Scan.run, ← scan_start first, ← hscan] at hfound

/-! ## How the generator ends -/

@[simp] theorem sawDone_failed (r : Relay) (detail : String) :
    (r.failed detail).relay.sawDone = r.sawDone := rfl

@[simp] theorem forwarded_failed (r : Relay) (detail : String) :
    forwarded (r.failed detail).relay.yielded = forwarded r.yielded := by
  simp [Relay.failed, forwarded_append]

@[simp] theorem logged_failed (r : Relay) (detail : String) : (r.failed detail).logged = false :=
  rfl

@[simp] theorem logged_left (r : Relay) : r.left.logged = false := rfl

@[simp] theorem logged_ended (r : Relay) : r.ended.logged = r.sawDone := by
  cases hdone : r.sawDone <;> simp [Served.logged, Relay.ended, hdone]

/-- The marker is seen and every byte is passed on, however the stream was cut, and a
prediction is logged exactly for a stream that closed after its marker. -/
theorem relay_exact (decode : Bytes → List Char) (first : Event) (chunks : List Bytes)
    (ending : Ending) :
    let served := gen decode first (.response 200 chunks ending)
    (served.relay.sawDone = true ↔ doneMarker <:+: chunks.flatten) ∧
      forwarded served.relay.yielded = chunks.flatten ∧
      (served.logged = true ↔ ending = .closed ∧ doneMarker <:+: chunks.flatten) := by
  have hdone := sawDone_foldl first chunks
  have hbytes := forwarded_foldl first chunks
  cases ending with
  | closed =>
    show (_ ↔ _) ∧ _ ∧ ((Relay.ended _).logged = true ↔ _)
    rw [logged_ended]
    exact ⟨hdone, hbytes, by simpa using hdone⟩
  | httpError e =>
    show ((Relay.failed _ _).relay.sawDone = true ↔ _) ∧
      forwarded (Relay.failed _ _).relay.yielded = _ ∧ ((Relay.failed _ _).logged = true ↔ _)
    rw [sawDone_failed, forwarded_failed, logged_failed]
    exact ⟨hdone, hbytes, by simp⟩
  | disconnected =>
    show (_ ↔ _) ∧ _ ∧ ((Relay.left _).logged = true ↔ _)
    rw [logged_left]
    exact ⟨hdone, hbytes, by simp⟩

end MlopsLite.Gateway.StreamRelay
