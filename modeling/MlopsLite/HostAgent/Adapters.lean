import MlopsLite.HostAgent.Routes.Handlers
import MlopsLite.Lib.Base64

/-!
# Adapters — what an engine makes of a request

`forward` and `forward_multipart` of `hostagent/adapters/`: the verb, what the
adapter reads from the body, and the shape of what it returns. The children
themselves answer as they do: a completion with its counts, a vector for each
text, a transcript, a classification.
-/

namespace MlopsLite.HostAgent.Adapters

open Conversions (Value Fields)
open Routes (Env Exc Engine Agent members lifted)
open Base64 (Byte)

/-- `base64.b64decode(s, validate=True)`, which reads what `b64encode` writes. -/
structure Codec where
  decode : List Char → Option (List Byte)
  decode_encode : ∀ bytes, decode (Base64.encode bytes) = some bytes

/-- A completion of `llama-server`. -/
structure Completion where
  content : String
  promptTokens : ℕ
  completionTokens : ℕ
  totalTokens : ℕ

/-- The children, as they answer: `served` is the name that the LLM was loaded under,
`image` what the vision child finds in an upload. -/
structure Children where
  served : String
  complete : Value → ℤ → Number → Completion
  whisperModel : String
  transcribe : List Byte → String → String → String
  encode : List String → List (List Number)
  encode_length : ∀ texts, (encode texts).length = texts.length
  image : List UInt8 → List Char → Option (List Byte)
  classify : List Byte → List (String × Number)
  visionModel : String
  device : String
  inferMs : Number
  loadMs : Number

/-- A verb of an adapter that has just the one. -/
def onVerb (own verb : String) (run : Except Exc Value) : Except Exc Value :=
  if verb = own then run else .error (.fault .value)

def number (n : ℕ) : Value := .num (.fin n)

section

variable (env : Env) (codec : Codec) (c : Children)

/-! ## llama -/

/-- The `usage` of a completion. -/
def usage (completion : Completion) : Value :=
  .obj [("prompt_tokens", number completion.promptTokens),
    ("completion_tokens", number completion.completionTokens),
    ("total_tokens", number completion.totalTokens)]

/-- What `LlamaAdapter.forward` returns for a completion. -/
def inferred (completion : Completion) (loadMs : Number) : Value :=
  .obj [("text", .str completion.content), ("load_ms", .num loadMs), ("infer_ms", .num c.inferMs),
    ("model", .str c.served), ("usage", usage completion)]

/-- `LlamaAdapter.forward`, with `_chat_payload`. -/
def llamaForward (verb : String) (body : Value) (loadMs : Number) : Except Exc Value :=
  onVerb "infer" verb do
    let body ← members body
    let maxTokens ← lifted <|
      Conversions.int env.numerals ((body.get "max_tokens").getD (.num (.fin 256)))
    let temperature ← lifted <|
      Conversions.float env.numerals ((body.get "temperature").getD (.num (.fin (7 / 10))))
    let prompt := (body.get "prompt").getD (.str "")
    return inferred c (c.complete prompt maxTokens temperature) loadMs

/-! ## embed -/

def text? : Value → Option String
  | .str s => some s
  | _ => none

/-- `EmbedRequest.texts`. -/
def texts? (body : Fields) : Option (List String) :=
  match body.read "texts" with
  | .arr items => items.mapM text?
  | _ => none

def vector (x : List Number) : Value := .arr (x.map .num)

/-- `ChildCpuAdapter.forward` to the embeddings child, which refuses what is no request. -/
def embedForward (verb : String) (body : Value) (_ : Number) : Except Exc Value :=
  onVerb "embed" verb <|
    match body with
    | .obj ms =>
      match texts? (Conversions.ofMembers ms) with
      | some texts => .ok (.arr ((c.encode texts).map vector))
      | none => .error .other
    | _ => .error .other

/-! ## whisper -/

/-- `str(value)`. -/
def strOf : Value → String
  | .str s => s
  | v => env.shown v

/-- `_hdr_safe`. -/
def hdrSafe (v : Value) : String :=
  String.ofList ((strOf env v).toList.filter fun ch => ch ≠ '\r' ∧ ch ≠ '\n' ∧ ch.toNat ≠ 34)

/-- `str.strip`. -/
def strip (s : String) : String := String.ofList (Texts.strip Texts.isSpace s.toList)

/-- The audio of a request: a text that decodes. -/
def audio? : Value → Option (List Byte)
  | .str s => codec.decode s.toList
  | _ => none

/-- The transcript of an audio. -/
def transcript (audio : List Byte) (filename language : Value) : String :=
  strip (c.transcribe audio (hdrSafe env filename) (hdrSafe env language))

/-- What `WhisperAdapter.forward` returns for a transcript. -/
def heard (text : String) (loadMs : Number) : Value :=
  .obj [("text", .str text), ("load_ms", .num loadMs), ("infer_ms", .num c.inferMs),
    ("model", .str c.whisperModel)]

/-- `WhisperAdapter.forward`. -/
def whisperForward (verb : String) (body : Value) (loadMs : Number) : Except Exc Value :=
  onVerb "transcribe" verb do
    let body ← members body
    let b64 := (body.get "audio_b64").getD (.str "")
    if b64.truthy then
      match audio? codec b64 with
      | some audio =>
        let filename := (body.get "filename").getD (.str "audio.wav")
        let language := (body.get "language").getD (.str "auto")
        return heard c (transcript env c audio filename language) loadMs
      | none => .error (.fault .value)
    else .error (.fault .value)

/-! ## vision -/

def prediction (p : String × Number) : Value := .obj [("label", .str p.1), ("score", .num p.2)]

/-- `VisionAdapter.forward_multipart`; the child refuses an upload without an image. -/
def visionForwardMultipart (verb : String) (raw : List UInt8) (contentType : List Char)
    (_ : Number) : Except Exc Value :=
  onVerb "classify" verb <|
    match c.image raw contentType with
    | some image =>
      .ok (.obj [("model", .str c.visionModel), ("device", .str c.device),
        ("predictions", .arr ((c.classify image).map prediction))])
    | none => .error .other

/-! ## Engines -/

/-- The adapters' engines, each of them admitted; `rest` is what else a runtime has. -/
def engines (rest : Engine) (eid : String) : Option Engine :=
  let ready : Engine := { rest with admitted := fun _ => .ok c.loadMs }
  if eid = "llm" then some { ready with
    verbs := ["infer"], streamVerbs := ["infer"]
    forward := some (llamaForward env c), forwardMultipart := none }
  else if eid = "asr" then some { ready with
    verbs := ["transcribe"], streamVerbs := []
    forward := some (whisperForward env codec c), forwardMultipart := none }
  else if eid = "embed" then some { ready with
    verbs := ["embed"], streamVerbs := []
    forward := some (embedForward c), forwardMultipart := none }
  else if eid = "vision" then some { ready with
    verbs := ["classify"], streamVerbs := []
    forward := none, forwardMultipart := some (visionForwardMultipart c) }
  else none

end

/-! ## What they make of a gateway's body -/

section

variable {env : Env} {codec : Codec} {c : Children} {loadMs : Number}

theorem llamaForward_infer (prompt : String) (maxTokens : ℤ) {temperature : Number}
    (h : Conversions.IsFloat temperature) :
    llamaForward env c "infer" (.obj [("prompt", .str prompt), ("max_tokens", .num (.fin maxTokens)),
      ("temperature", .num temperature)]) loadMs =
    .ok (inferred c (c.complete (.str prompt) maxTokens temperature) loadMs) := by
  have hint : Conversions.int env.numerals (.num (.fin maxTokens)) = .ok maxTokens :=
    Conversions.int_num maxTokens
  have hfloat : Conversions.float env.numerals (.num temperature) = .ok temperature :=
    Conversions.float_num h
  simp [llamaForward, onVerb, members, Conversions.ofMembers, Fields.get, Conversions.isKey, bind,
    Except.bind, lifted, hint, hfloat, pure, Except.pure]

theorem texts?_ofMembers (texts : List String) :
    texts? (Conversions.ofMembers [("texts", .arr (texts.map .str))]) = some texts := by
  have htexts : (texts.map Json.str).mapM text? = some texts := by
    induction texts with
    | nil => rfl
    | cons s texts ih => simp [List.mapM_cons, ih, text?]
  simp [texts?, Conversions.ofMembers, Fields.read, Fields.get, Conversions.isKey, htexts]

theorem embedForward_texts (texts : List String) :
    embedForward c "embed" (.obj [("texts", .arr (texts.map .str))]) loadMs =
    .ok (.arr ((c.encode texts).map vector)) := by
  simp [embedForward, onVerb, texts?_ofMembers]

/-- An audio is transcribed if it is there and decodes. -/
theorem whisperForward_iff {b64 filename language v : Value} :
    whisperForward env codec c "transcribe" (.obj [("audio_b64", b64), ("filename", filename),
      ("language", language)]) loadMs = .ok v ↔
    b64.truthy = true ∧ ∃ audio, audio? codec b64 = some audio ∧
      v = heard c (transcript env c audio filename language) loadMs := by
  by_cases htruthy : b64.truthy = true
  · cases haudio : audio? codec b64 with
    | none =>
      simp [whisperForward, onVerb, members, Conversions.ofMembers, Fields.get, Conversions.isKey,
        bind, Except.bind, htruthy, haudio]
    | some audio =>
      simp [whisperForward, onVerb, members, Conversions.ofMembers, Fields.get, Conversions.isKey,
        bind, Except.bind, htruthy, haudio, pure, Except.pure, eq_comm]
  · simp [whisperForward, onVerb, members, Conversions.ofMembers, Fields.get, Conversions.isKey,
      bind, Except.bind, htruthy]

end

end MlopsLite.HostAgent.Adapters
