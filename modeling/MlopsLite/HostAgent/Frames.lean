import MlopsLite.Lib.Doubles
import MlopsLite.Lib.Lines
import MlopsLite.Lib.Utf16Json
import MlopsLite.Lib.Utf8

/-!
# Frames — the events that a stream is made of

`_frame` and `stream` of `LlamaAdapter` (`hostagent/adapters/llama.py`), and `_sse`
(`gateway/app/routers/stream.py`): an event is an object, and its frame is a line of
JSON and a blank line.
-/

namespace MlopsLite.HostAgent.Frames

open Utf16Json (Units Doc dumps)

/-- A finite number of Python. -/
inductive PyNumber
  | int (z : ℤ)
  | float (x : {q : ℚ // Doubles.Exact q})

def PyNumber.value : PyNumber → ℚ
  | .int z => z
  | .float x => x.1

/-- An event is an object: its members, in order. -/
abbrev Event := List (Units × Doc PyNumber)

/-- `repr` of a float. -/
abbrev Repr := {q : ℚ // Doubles.Exact q} → List Char

variable (repr : Repr)

def write : PyNumber → List Char
  | .int z => Texts.ofInt z
  | .float x => repr x

/-- `data: {json.dumps(event)}`. -/
def line (event : Event) : List Char := "data: ".toList ++ dumps [' '] (write repr) (.obj event)

/-- `_frame`, and `_sse`. -/
def frame (event : Event) : List UInt8 := Utf8.encode (line repr event ++ ['\n', '\n'])

def stream (events : List Event) : List UInt8 := events.flatMap (frame repr)

/-- The events whose frames are within the first `n` bytes. -/
def arrived : ℕ → List Event → List Event
  | _, [] => []
  | n, event :: events =>
      if (frame repr event).length ≤ n then
        event :: arrived (n - (frame repr event).length) events
      else []

/-- The text of a stream. -/
def text (events : List Event) : List Char :=
  events.flatMap fun event => line repr event ++ ['\n', '\n']

/-- The `repr` of a half. -/
def reprHalf : Repr := fun _ => "0.5".toList

def key (name : String) : Units := name.toList.flatMap Utf16Json.units

/-- What `LlamaAdapter.stream` sends. -/
inductive Frame
  | start (loadMs : PyNumber) (model : Units)
  | token (text : Units)
  | done (inferMs : PyNumber) (tokens : ℕ) (model : Units)

namespace Frame

def event : Frame → Event
  | start loadMs model =>
      [(key "event", .str (key "start")), (key "load_ms", .num loadMs), (key "model", .str model)]
  | token text => [(key "event", .str (key "token")), (key "text", .str text)]
  | done inferMs tokens model =>
      [(key "event", .str (key "done")), (key "infer_ms", .num inferMs),
        (key "tokens", .num (.int tokens)), (key "model", .str model)]

/-- The text of a token. -/
def token? : Frame → Option Units
  | token text => some text
  | start .. | done .. => none

end Frame

/-- `start → token* → done`; the name that is served may change in between. -/
structure Generation where
  loadMs : PyNumber
  model : Units
  texts : List Units
  inferMs : PyNumber
  modelAfter : Units

namespace Generation

variable (g : Generation)

def last : Frame := .done g.inferMs g.texts.length g.modelAfter

def frames : List Frame := .start g.loadMs g.model :: (g.texts.map .token ++ [g.last])

def events : List Event := g.frames.map Frame.event

/-- The frames that are within the first `n` bytes. -/
def received (n : ℕ) : List Frame := g.frames.take (arrived repr n g.events).length

end Generation

/-! ## A line -/

section

variable {repr} {P : PyNumber → Prop} {μ : Type} {read : List Char → Option μ} {f : PyNumber → μ}

theorem reads_of_isNumber {n : PyNumber} (h : JsonTokens.isNumber (write repr n) = true)
    (hread : read (write repr n) = some (f n)) : Utf16Json.Reads (write repr) read f n := by
  have hall : (write repr n).all JsonTokens.atomChar = true := by
    rw [JsonTokens.isNumber, Bool.and_eq_true] at h
    exact h.1
  have hnot : ∀ w, JsonTokens.isNumber w = false → write repr n ≠ w := by
    rintro w hw heq
    rw [heq, hw] at h
    cases h
  refine ⟨hnot [] (by decide), hall, ?_⟩
  rw [Utf16Json.word, if_neg (hnot _ (by decide)), if_neg (hnot _ (by decide)),
    if_neg (hnot _ (by decide)), hread, Option.map_some]

theorem isNumber_int (z : ℤ) : JsonTokens.isNumber (write repr (.int z)) = true :=
  Doubles.isNumber_ofInt z

theorem printable_line (hP : ∀ n, P n → (write repr n).all JsonTokens.atomChar = true)
    {event : Event} (h : (Doc.obj event).WellFormed P) :
    ∀ c ∈ line repr event, Utf16Json.Printable c := by
  intro c hc
  rcases List.mem_append.mp hc with hc | hc
  · exact Utf16Json.printable_of_all (s := "data: ".toList) (by decide) c hc
  · exact Utf16Json.printable_dumps (Utf16Json.printable_of_all (s := [' ']) rfl) hP h.numbers c hc

theorem line_ne_nil (event : Event) : line repr event ≠ [] := List.cons_ne_nil _ _

theorem dumps_event (repr : Repr) (event : Event) :
    ∃ t, dumps [' '] (write repr) (.obj event) = '\x7b' :: (t ++ ['\x7d']) :=
  ⟨_, Utf16Json.dumps_obj _ _ _⟩

variable {sep : Char → Bool}

/-- White space is none of the line's ends. -/
theorem strip_line (hfirst : sep 'd' = false) (hclose : sep '\x7d' = false) (event : Event) :
    Texts.strip sep (line repr event) = line repr event := by
  obtain ⟨t, ht⟩ := dumps_event repr event
  refine Texts.strip_eq_self ?_ ?_
  · rintro _ ⟨⟩
    exact hfirst
  · intro c hc
    rw [line, ht, ← List.cons_append, ← List.append_assoc, List.getLast?_concat] at hc
    cases hc
    exact hclose

/-- Behind `data:` there is the object. -/
theorem strip_drop_line (hspace : sep ' ' = true) (hopen : sep '\x7b' = false)
    (hclose : sep '\x7d' = false) (event : Event) :
    Texts.strip sep ((line repr event).drop 5) = dumps [' '] (write repr) (.obj event) := by
  obtain ⟨t, ht⟩ := dumps_event repr event
  have hdrop : (line repr event).drop 5 = ' ' :: dumps [' '] (write repr) (.obj event) := rfl
  have hself : Texts.strip sep (dumps [' '] (write repr) (.obj event)) =
      dumps [' '] (write repr) (.obj event) := by
    refine Texts.strip_eq_self ?_ ?_
    · rw [ht]
      rintro _ ⟨⟩
      exact hopen
    · intro c hc
      rw [ht, ← List.cons_append, List.getLast?_concat] at hc
      cases hc
      exact hclose
  rw [hdrop, Texts.strip, List.dropWhile_cons_of_pos hspace]
  exact hself

/-! ## The stream -/

theorem encode_text (events : List Event) : Utf8.encode (text repr events) = stream repr events :=
  List.flatMap_assoc

theorem arrived_subset (n : ℕ) (events : List Event) : arrived repr n events ⊆ events := by
  induction events generalizing n with
  | nil => simp [arrived]
  | cons event events ih =>
    rw [arrived]
    split_ifs
    · exact List.cons_subset_cons _ (ih _)
    · exact List.nil_subset _

/-- All arrived exactly if the bytes did. -/
theorem length_arrived {n : ℕ} {events : List Event} :
    events.length ≤ (arrived repr n events).length ↔ (stream repr events).length ≤ n := by
  induction events generalizing n with
  | nil => simp [arrived, stream]
  | cons event events ih =>
    rw [stream] at ih
    rw [arrived, stream, List.flatMap_cons, List.length_append, List.length_cons]
    by_cases hfits : (frame repr event).length ≤ n
    · rw [if_pos hfits, List.length_cons, Nat.add_le_add_iff_right, ih]
      omega
    · rw [if_neg hfits, List.length_nil]
      omega

theorem stream_take_prefix (k : ℕ) (events : List Event) :
    stream repr (events.take k) <+: stream repr events :=
  (List.take_prefix k events).flatMap _

/-- A stream without its last frames is shorter. -/
theorem length_stream_take {k : ℕ} {events : List Event} (h : k < events.length) :
    (stream repr (events.take k)).length < (stream repr events).length := by
  have hframe : ∀ event, frame repr event ≠ [] := fun event => by
    rw [frame, line, List.append_assoc]
    exact List.append_ne_nil_of_left_ne_nil (UrlPath.utf8EncodeChar_ne_nil _) _
  have hdrop : stream repr (events.drop k) ≠ [] := by
    rw [List.drop_eq_getElem_cons h, stream, List.flatMap_cons]
    exact List.append_ne_nil_of_left_ne_nil (hframe _) _
  have hevents : stream repr events = stream repr (events.take k) ++ stream repr (events.drop k) := by
    rw [stream, stream, stream, ← List.flatMap_append, List.take_append_drop]
  rw [hevents, List.length_append]
  exact Nat.lt_add_of_pos_right (List.length_pos_iff.mpr hdrop)

/-- The lines of a text, and the blank ones behind them. -/
theorem splitOnP_text (hP : ∀ n, P n → (write repr n).all JsonTokens.atomChar = true)
    {sep : Char → Bool} (hnewline : sep '\n' = true)
    (hkeep : ∀ c, Utf16Json.Printable c → sep c = false) {events : List Event}
    (h : ∀ event ∈ events, (Doc.obj event).WellFormed P) :
    (text repr events).splitOnP sep =
      (events.flatMap fun event => [line repr event, []]) ++ [[]] := by
  induction events with
  | nil => rfl
  | cons event events ih =>
    have hline : ∀ c ∈ line repr event, sep c = false :=
      fun c hc => hkeep c (printable_line hP (h event List.mem_cons_self) c hc)
    have hrest := ih fun e he => h e (List.mem_cons_of_mem _ he)
    rw [text] at hrest
    have hblank : ∀ rest, (line repr event ++ ['\n', '\n'] ++ rest).splitOnP sep =
        line repr event :: [] :: rest.splitOnP sep := by
      intro rest
      rw [List.append_assoc, List.cons_append, List.splitOnP_append_cons_of_forall_mem hline _
        hnewline, List.cons_append, List.nil_append, List.splitOnP_cons_eq_if_modifyHead,
        if_pos hnewline]
    rw [text, List.flatMap_cons, hblank, hrest]
    rfl

end

end MlopsLite.HostAgent.Frames
