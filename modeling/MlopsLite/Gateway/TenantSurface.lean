import MlopsLite.HostAgent.Adapters
import MlopsLite.HostAgent.Routes.Answers

/-!
# TenantSurface — the OpenAI-shaped routes

The routes of `gateway/app/routers/broker_openai.py` for a tenant whose quota is
granted, and the agent behind them: what a route sends, what the agent's own
handler makes of it, and what the route reads from the answer. A request agrees
if the agent takes it and the tenant is given what the engine came to.
-/

namespace MlopsLite.Gateway.TenantSurface

open Conversions (Value Fields)
open HostAgent.Routes (Env Exc Engine Agent PostRequest answer complaint handlePost)
open HostAgent.Adapters (Codec Children Completion number vector)
open Base64 (Byte)

/-- Why a route has no response: it raised, or it refused with a code. -/
inductive Stop
  | raised (e : Exc)
  | refused (code : String)

/-! ## Requests -/

structure ChatMessage where
  role : String
  content : String

structure ChatCompletionRequest where
  model : String
  messages : List ChatMessage
  maxTokens : ℤ
  temperature : Number
  isFloat : Conversions.IsFloat temperature

structure EmbeddingsRequest where
  model : String
  input : String ⊕ List String

/-- A part of a form: a file, or a field. -/
inductive Part
  | file (filename : String) (bytes : List Byte)
  | field (s : String)

/-- A multipart body; `language` is the field, or `auto`, as a text. -/
structure Form where
  file : Option Part
  language : String

structure VisionRequest where
  model : String
  image : String

/-! ## To the agent and back -/

/-- The agent, its limit for a JSON body, and how long a value is when written. -/
structure Link where
  env : Env
  agent : Agent
  maxJsonBytes : ℕ
  size : Value → ℕ

def isFinite : Number → Bool
  | .fin _ => true
  | .nan | .inf _ => false

/-- The bytes of a payload read as what was written. -/
def reading (env : Env) (payload : Value) : Env := { env with loads := fun _ => .value payload }

def jsonRequest (path : String) : PostRequest where
  path := path.toList
  query := []
  contentType := "application/json".toList
  controlHeader := ""
  raw := []

/-- What the agent's transport hands on to the routes. -/
def receive (link : Link) (path : String) (payload : Value) : HostAgent.Routes.Handled :=
  handlePost (reading link.env payload) link.agent (jsonRequest path)

/-- `_post`: what is not finite is not written, and a handler that raises closes the
connection. -/
def post (link : Link) (path : String) (payload : Value) : Except Stop HostAgent.Routes.Answer :=
  if payload.all isFinite then
    if link.size payload ≤ link.maxJsonBytes then
      match receive link path payload with
      | .ok a => .ok a
      | .error _ => .error (.refused "store_unavailable")
    else .ok (complaint 413 ("request body exceeds the " ++ toString link.maxJsonBytes ++
      "-byte limit for this route class (FR-317)"))
  else .error (.raised (.fault .value))

def status : HostAgent.Routes.Answer → ℕ
  | .response code .. => code
  | .stream => 200

/-- `r.json()`. -/
def jsonOf : HostAgent.Routes.Answer → Except Stop Value
  | .response _ (.json v) _ => .ok v
  | _ => .error (.raised (.fault .value))

/-- `_map_agent_refusal`. -/
def mapAgentRefusal (status : ℕ) : String :=
  if status = 409 ∨ status = 503 then "gpu_busy"
  else if status = 507 then "gpu_busy"
  else if status = 413 then "model_too_large"
  else "store_unavailable"

/-- The part of a route under its meter: the call, the refusal of another status, and
the reply from the answer's JSON. -/
def served (link : Link) (path : String) (payload : Value) (reply : Value → Except Stop Value) :
    Except Stop Value := do
  let r ← post link path payload
  if status r = 200 then do
    let payload ← jsonOf r
    reply payload
  else .error (.refused (mapAgentRefusal (status r)))

/-- `payload.get(...)`. -/
def members : Value → Except Stop Fields
  | .obj ms => .ok (Conversions.ofMembers ms)
  | _ => .error (.raised (.fault .attribute))

/-! ## chat -/

/-- `_flatten`. -/
def flatten (messages : List ChatMessage) : String :=
  let parts := messages.map fun m =>
    let role := HostAgent.Adapters.strip (if m.role = "" then "user" else m.role)
    if role = "system" then m.content else role ++ ": " ++ m.content
  "\n".intercalate ((parts ++ ["assistant:"]).filter fun p => p ≠ "")

def inferPayload (body : ChatCompletionRequest) : Value :=
  .obj [("prompt", .str (flatten body.messages)), ("max_tokens", .num (.fin body.maxTokens)),
    ("temperature", .num body.temperature)]

/-- The meter's part of a response. -/
structure Meter where
  opId : String
  created : ℕ
  gpuSeconds : Number

/-- The response to a completion. -/
def completed (meter : Meter) (body : ChatCompletionRequest) (payload : Value) :
    Except Stop Value := do
  let payload ← members payload
  let text := Json.orElse (payload.get "completion") (Json.orElse (payload.get "text") (.str ""))
  return .obj [("id", .str meter.opId), ("object", .str "chat.completion"),
    ("created", number meter.created),
    ("model", Json.orElse (payload.get "serving_model") (.str body.model)),
    ("choices", .arr [.obj [("index", number 0), ("finish_reason", .str "stop"),
      ("message", .obj [("role", .str "assistant"), ("content", text)])]]),
    ("usage", .obj [("prompt_tokens", (payload.get "prompt_tokens").getD (number 0)),
      ("completion_tokens", (payload.get "completion_tokens").getD (number 0)),
      ("total_tokens", (payload.get "total_tokens").getD (number 0)),
      ("gpu_seconds", .num meter.gpuSeconds)])]

/-- `chat_completions`, without `stream`. -/
def chatCompletions (link : Link) (meter : Meter) (body : ChatCompletionRequest) :
    Except Stop Value :=
  if body.messages = [] then .error (.refused "forbidden")
  else served link "/engines/llm/infer" (inferPayload body) (completed meter body)

/-! ## embeddings -/

/-- `[body.input]`, or the list. -/
def EmbeddingsRequest.texts (body : EmbeddingsRequest) : List String :=
  match body.input with
  | .inl s => [s]
  | .inr texts => texts

def embedPayload (body : EmbeddingsRequest) : Value :=
  .obj [("texts", .arr (body.texts.map .str))]

def embedding (v : Value) (i : ℕ) : Value :=
  .obj [("object", .str "embedding"), ("index", number i), ("embedding", v)]

/-- `payload.get("vectors") or []` of a dict. -/
def vectorsOf : Value → Value
  | .obj ms => Json.orElse ((Conversions.ofMembers ms).get "vectors") (.arr [])
  | v => v

/-- The response to the vectors. -/
def embedded (meter : Meter) (body : EmbeddingsRequest) (payload : Value) : Except Stop Value :=
  match (vectorsOf payload).iter with
  | .ok vectors =>
    .ok (.obj [("object", .str "list"),
      ("model", .str (if body.model = "" then "embed" else body.model)),
      ("data", .arr (vectors.zipIdx.map fun p => embedding p.1 p.2)),
      ("usage", .obj [("prompt_tokens", number 0), ("total_tokens", number 0),
        ("gpu_seconds", .num meter.gpuSeconds)])])
  | .error _ => .error (.raised (.fault .type))

/-- `embeddings`. -/
def embeddings (link : Link) (meter : Meter) (body : EmbeddingsRequest) : Except Stop Value :=
  if body.texts = [] then .error (.refused "forbidden")
  else served link "/engines/embed/embed" (embedPayload body) (embedded meter body)

/-! ## transcriptions -/

def transcribePayload (audioB64 filename language : Value) : Value :=
  .obj [("audio_b64", audioB64), ("filename", filename), ("language", language)]

/-- The response to a transcript. -/
def transcribed (payload : Value) : Except Stop Value := do
  let payload ← members payload
  return .obj [("text", (payload.get "text").getD (.str ""))]

def filePayload (filename : String) (bytes : List Byte) (language : String) : Value :=
  transcribePayload (.str (String.ofList (Base64.encode bytes))) (.str filename) (.str language)

/-- The payload of a form: `bytes` of a field raises. -/
def formPayload (form : Form) : Except Stop Value :=
  match form.file with
  | none => .error (.refused "forbidden")
  | some (.field _) => .error (.raised (.fault .type))
  | some (.file filename bytes) => .ok (filePayload filename bytes form.language)

/-- `body.get("audio_b64") or body.get("file") or ""`. -/
def audioOf (body : Fields) : Value :=
  Json.orElse (body.get "audio_b64") (Json.orElse (body.get "file") (.str ""))

def filenameOf (body : Fields) : Value := (body.get "filename").getD (.str "audio.wav")

def languageOf (body : Fields) : Value := (body.get "language").getD (.str "auto")

def bodyPayload (body : Fields) : Value :=
  transcribePayload (audioOf body) (filenameOf body) (languageOf body)

/-- The payload of a JSON body. -/
def jsonPayload (body : Value) : Except Stop Value := do
  let body ← members body
  if (audioOf body).truthy then return bodyPayload body
  else .error (.refused "forbidden")

def audioPayload : Form ⊕ Value → Except Stop Value
  | .inl form => formPayload form
  | .inr body => jsonPayload body

/-- `transcriptions`. -/
def transcriptions (link : Link) (body : Form ⊕ Value) : Except Stop Value := do
  let payload ← audioPayload body
  served link "/engines/asr/transcribe" payload transcribed

/-! ## vision -/

/-- The response to a classification or a detection. -/
def seen (task : String) (payload : Value) : Except Stop Value := do
  let payload ← members payload
  if task = "classify" then
    return .obj [("labels",
      Json.orElse (payload.get "labels") (Json.orElse (payload.get "predictions") (.arr [])))]
  else
    return .obj [("objects",
      Json.orElse (payload.get "objects") (Json.orElse (payload.get "detections") (.arr [])))]

def visionPayload (body : VisionRequest) : Value := .obj [("image_b64", .str body.image)]

/-- `vision`. -/
def vision (link : Link) (task : String) (body : VisionRequest) : Except Stop Value :=
  if task ∉ ["classify", "detect"] then .error (.refused "not_found")
  else if body.image = "" then .error (.refused "forbidden")
  else served link ("/engines/vision/" ++ task) (visionPayload body) (seen task)

/-! ## Agreement -/

inductive Request
  | chat (body : ChatCompletionRequest)
  | embeddings (body : EmbeddingsRequest)
  | transcription (body : Form ⊕ Value)
  | classify (body : VisionRequest)

/-- The route's own checks. -/
def Passes : Request → Prop
  | .chat body => body.messages ≠ []
  | .embeddings body => body.texts ≠ []
  | .transcription (.inl form) => form.file ≠ none
  | .transcription (.inr body) =>
    ∀ ms, body = .obj ms → (audioOf (Conversions.ofMembers ms)).truthy = true
  | .classify body => body.image ≠ ""

def run (link : Link) (meter : Meter) : Request → Except Stop Value
  | .chat body => chatCompletions link meter body
  | .embeddings body => embeddings link meter body
  | .transcription body => transcriptions link body
  | .classify body => vision link "classify" body

/-- What the agent answers to the forwarded request. -/
def sent (link : Link) : Request → Except Stop HostAgent.Routes.Answer
  | .chat body => post link "/engines/llm/infer" (inferPayload body)
  | .embeddings body => post link "/engines/embed/embed" (embedPayload body)
  | .transcription body => do
    let payload ← audioPayload body
    post link "/engines/asr/transcribe" payload
  | .classify body => post link "/engines/vision/classify" (visionPayload body)

/-- The agent's engines are its adapters over the children. -/
structure Platform extends Link where
  codec : Codec
  children : Children
  rest : Engine
  engines_eq : agent.engines = HostAgent.Adapters.engines env codec children rest

variable (p : Platform)

/-- The completion of a chat. -/
def Platform.completion (body : ChatCompletionRequest) : Completion :=
  p.children.complete (.str (flatten body.messages)) body.maxTokens body.temperature

/-- The audio of a request with its file name and language. -/
def Platform.uploaded : Form ⊕ Value → Option (List Byte × Value × Value)
  | .inl form =>
    match form.file with
    | some (.file filename bytes) => some (bytes, .str filename, .str form.language)
    | _ => none
  | .inr (.obj ms) =>
    let body := Conversions.ofMembers ms
    (HostAgent.Adapters.audio? p.codec (audioOf body)).map fun audio =>
      (audio, filenameOf body, languageOf body)
  | .inr _ => none

/-- The reply has what the engine came to: the text, the name and the counts; a vector
for each text; the transcript; the labels. -/
def Carries : Request → Value → Prop
  | .chat body, v =>
    v.find [.name "choices", .index 0, .name "message", .name "content"] =
        some (.str (p.completion body).content) ∧
      v.find [.name "model"] = some (.str p.children.served) ∧
      v.find [.name "usage", .name "prompt_tokens"] =
        some (number (p.completion body).promptTokens) ∧
      v.find [.name "usage", .name "completion_tokens"] =
        some (number (p.completion body).completionTokens) ∧
      v.find [.name "usage", .name "total_tokens"] =
        some (number (p.completion body).totalTokens)
  | .embeddings body, v =>
    ∃ data, v.find [.name "data"] = some (.arr data) ∧ data.length = body.texts.length ∧
      data.map (fun d => d.find [.name "embedding"]) =
        (p.children.encode body.texts).map fun x => some (vector x)
  | .transcription body, v =>
    ∃ audio filename language, p.uploaded body = some (audio, filename, language) ∧
      v.find [.name "text"] = some
        (.str (HostAgent.Adapters.transcript p.env p.children audio filename language))
  | .classify body, v =>
    ∃ image labels, p.codec.decode body.image.toList = some image ∧
      v.find [.name "labels"] = some (.arr labels) ∧
      labels.map (fun l => l.find [.name "label"]) =
        (p.children.classify image).map fun l => some (.str l.1)

/-- The agent accepts what the route forwards, and the tenant's response carries the
engine's result. -/
def Relays (meter : Meter) (r : Request) : Prop :=
  ∃ a v, sent p.toLink r = .ok a ∧ status a ∉ [400, 404, 415] ∧
    run p.toLink meter r = .ok v ∧ Carries p r v

/-- The forwarded JSON is within the agent's limit. -/
def Fits (payload : Value) : Prop := p.size payload ≤ p.maxJsonBytes

/-- When they agree. -/
def Meets : Request → Prop
  | .chat body =>
    isFinite body.temperature = true ∧ Fits p (inferPayload body) ∧
      body.model = p.children.served ∧ (p.completion body).promptTokens = 0 ∧
      (p.completion body).completionTokens = 0 ∧ (p.completion body).totalTokens = 0
  | .embeddings body => Fits p (embedPayload body)
  | .transcription (.inl form) =>
    ∃ filename bytes, form.file = some (.file filename bytes) ∧ bytes ≠ [] ∧
      Fits p (filePayload filename bytes form.language)
  | .transcription (.inr body) =>
    ∃ ms, body = .obj ms ∧ (p.uploaded (.inr body)).isSome = true ∧
      (filenameOf (Conversions.ofMembers ms)).all isFinite = true ∧
      (languageOf (Conversions.ofMembers ms)).all isFinite = true ∧
      Fits p (bodyPayload (Conversions.ofMembers ms))
  | .classify _ => False

/-! ## The agent's answer -/

variable {p} {path eid verb : String} {ms : List (String × Value)} {report v : Value} {e : Engine}
  {loadMs : Number} {f : String → Value → Number → Except Exc Value}
  {reply : Value → Except Stop Value}

theorem preempts_nil (env : Env) : HostAgent.Routes.preempts env [] = false := by
  rw [HostAgent.Routes.preempts, decide_eq_false_iff_not]
  show ("".toLower ∈ ["1", "true", "yes"]) → False
  decide +kernel

/-- A forwarded request gets to its engine. -/
theorem receive_verb {link : Link}
    (hroute : HostAgent.Routes.postRoute path.toList = .verb eid verb [])
    (hengine : link.agent.engines eid = some e) :
    receive link path (.obj ms) = .ok (HostAgent.Routes.forwardUnderLease
      (reading link.env (.obj ms)) e eid verb "JSON" false
      (e.forward.map fun f => f verb (.obj ms))) := by
  have hstarts : HostAgent.Routes.starts "multipart/" "application/json".toList = false := by
    decide +kernel
  unfold receive handlePost
  rw [jsonRequest, hroute]
  dsimp only
  unfold HostAgent.Routes.postEngineVerb
  rw [hengine]
  dsimp only
  rw [if_pos (Or.inl rfl), preempts_nil, hstarts]
  rfl

/-- What is raised is not told as a success. -/
theorem status_errorResponse (env : Env) (err : Exc) :
    status (HostAgent.Routes.errorResponse env err) ≠ 200 := by
  cases err with
  | fault f => cases f <;> simp [HostAgent.Routes.errorResponse, complaint, answer, status,
      HostAgent.Routes.engineErrorStatus]
  | _ => simp [HostAgent.Routes.errorResponse, complaint, answer, status,
      HostAgent.Routes.engineErrorStatus]

/-- The agent's answer is a success if the adapter has a result. -/
theorem receive_forward {link : Link}
    (hroute : HostAgent.Routes.postRoute path.toList = .verb eid verb [])
    (hengine : link.agent.engines eid = some e) (hverb : verb ∈ e.verbs)
    (hadmitted : e.admitted false = .ok loadMs) (hforward : e.forward = some f) :
    receive link path (.obj ms) = .ok (match f verb (.obj ms) loadMs with
      | .ok result => answer 200 result
      | .error err => HostAgent.Routes.errorResponse (reading link.env (.obj ms)) err) := by
  rw [receive_verb hroute hengine, hforward]
  unfold HostAgent.Routes.forwardUnderLease
  rw [if_pos hverb]
  dsimp only [Option.map]
  rw [hadmitted]
  rfl

/-- An adapter without `forward` takes no JSON. -/
theorem receive_refused {link : Link}
    (hroute : HostAgent.Routes.postRoute path.toList = .verb eid verb [])
    (hengine : link.agent.engines eid = some e) (hverb : verb ∈ e.verbs)
    (hforward : e.forward = none) :
    ∃ text, receive link path (.obj ms) = .ok (complaint 415 text) := by
  rw [receive_verb hroute hengine, hforward]
  unfold HostAgent.Routes.forwardUnderLease
  rw [if_pos hverb]
  exact ⟨_, rfl⟩

/-- A route replies if what it forwards is written, fits, and comes to a result. -/
theorem served_iff {link : Link}
    (hroute : HostAgent.Routes.postRoute path.toList = .verb eid verb [])
    (hengine : link.agent.engines eid = some e) (hverb : verb ∈ e.verbs)
    (hadmitted : e.admitted false = .ok loadMs) (hforward : e.forward = some f) :
    served link path (.obj ms) reply = .ok v ↔
      (Json.obj ms).all isFinite = true ∧ link.size (.obj ms) ≤ link.maxJsonBytes ∧
        ∃ report, f verb (.obj ms) loadMs = .ok report ∧ reply report = .ok v := by
  unfold served post
  by_cases hfinite : (Json.obj ms).all isFinite = true
  · by_cases hsize : link.size (.obj ms) ≤ link.maxJsonBytes
    · rw [if_pos hfinite, if_pos hsize, receive_forward hroute hengine hverb hadmitted hforward]
      cases hresult : f verb (.obj ms) loadMs with
      | ok result => simp [bind, Except.bind, answer, status, jsonOf, hfinite, hsize]
      | error err => simp [bind, Except.bind, status_errorResponse]
    · rw [if_pos hfinite, if_neg hsize]
      simp [bind, Except.bind, complaint, answer, status, hsize]
  · rw [if_neg hfinite]
    simp [bind, Except.bind, hfinite]

/-- A reply comes of an answer with status 200. -/
theorem post_of_served {link : Link} {payload : Value} (h : served link path payload reply = .ok v) :
    ∃ a, post link path payload = .ok a ∧ status a = 200 := by
  unfold served at h
  cases hpost : post link path payload with
  | error stop => simp [hpost, bind, Except.bind] at h
  | ok a =>
    by_cases hstatus : status a = 200
    · exact ⟨a, rfl, hstatus⟩
    · simp [hpost, bind, Except.bind, hstatus] at h

/-! ## The routes of the engines -/

theorem postRoute_infer : HostAgent.Routes.postRoute "/engines/llm/infer".toList =
    .verb "llm" "infer" [] := by
  rfl

theorem postRoute_embed : HostAgent.Routes.postRoute "/engines/embed/embed".toList =
    .verb "embed" "embed" [] := by
  rfl

theorem postRoute_transcribe : HostAgent.Routes.postRoute "/engines/asr/transcribe".toList =
    .verb "asr" "transcribe" [] := by
  rfl

theorem postRoute_classify : HostAgent.Routes.postRoute "/engines/vision/classify".toList =
    .verb "vision" "classify" [] := by
  rfl

/-- A chat is answered with the engine's report. -/
theorem chatCompletions_iff {meter : Meter} {body : ChatCompletionRequest}
    (hmessages : body.messages ≠ []) :
    chatCompletions p.toLink meter body = .ok v ↔
      isFinite body.temperature = true ∧ Fits p (inferPayload body) ∧
        completed meter body (HostAgent.Adapters.inferred p.children (p.completion body)
          p.children.loadMs) = .ok v := by
  rw [chatCompletions, if_neg hmessages]
  unfold inferPayload
  rw [served_iff postRoute_infer (by rw [p.engines_eq]; rfl) (by simp) rfl rfl,
    HostAgent.Adapters.llamaForward_infer _ _ body.isFloat]
  simp [Fits, isFinite, Platform.completion]

theorem embeddings_iff {meter : Meter} {body : EmbeddingsRequest} (htexts : body.texts ≠ []) :
    embeddings p.toLink meter body = .ok v ↔ Fits p (embedPayload body) ∧
      embedded meter body (.arr ((p.children.encode body.texts).map vector)) = .ok v := by
  rw [embeddings, if_neg htexts]
  unfold embedPayload
  rw [served_iff postRoute_embed (by rw [p.engines_eq]; rfl) (by simp) rfl rfl,
    HostAgent.Adapters.embedForward_texts]
  simp [Fits]

/-- The transcript is passed on. -/
theorem transcribed_heard {text : String} {loadMs : Number} :
    transcribed (HostAgent.Adapters.heard p.children text loadMs) =
      .ok (.obj [("text", .str text)]) := by
  rfl

/-- An audio is answered with its transcript. -/
theorem transcribe_iff {b64 filename language : Value} :
    served p.toLink "/engines/asr/transcribe" (transcribePayload b64 filename language)
        transcribed = .ok v ↔
      (transcribePayload b64 filename language).all isFinite = true ∧
        Fits p (transcribePayload b64 filename language) ∧ b64.truthy = true ∧
        ∃ audio, HostAgent.Adapters.audio? p.codec b64 = some audio ∧
          v = .obj [("text", .str
            (HostAgent.Adapters.transcript p.env p.children audio filename language))] := by
  unfold transcribePayload
  rw [served_iff postRoute_transcribe (by rw [p.engines_eq]; rfl) (by simp) rfl rfl]
  refine and_congr_right fun _ => and_congr_right fun _ => ?_
  constructor
  · rintro ⟨report, hreport, hreply⟩
    obtain ⟨htruthy, audio, haudio, rfl⟩ := HostAgent.Adapters.whisperForward_iff.mp hreport
    rw [transcribed_heard] at hreply
    exact ⟨htruthy, audio, haudio, (Except.ok.inj hreply).symm⟩
  · rintro ⟨htruthy, audio, haudio, rfl⟩
    exact ⟨_, HostAgent.Adapters.whisperForward_iff.mpr ⟨htruthy, audio, haudio, rfl⟩,
      transcribed_heard⟩

/-- What the vision route sends is refused, where it is sent at all. -/
theorem sent_classify {body : VisionRequest} {a : HostAgent.Routes.Answer}
    (h : post p.toLink "/engines/vision/classify" (visionPayload body) = .ok a) :
    status a = 415 ∨ status a = 413 := by
  obtain ⟨text, hreceive⟩ : ∃ text, receive p.toLink "/engines/vision/classify"
      (visionPayload body) = .ok (complaint 415 text) := by
    apply receive_refused postRoute_classify
    · rw [p.engines_eq]
      rfl
    · simp
    · rfl
  unfold post at h
  split at h
  · split at h
    · rw [hreceive] at h
      cases h
      exact Or.inl rfl
    · cases h
      exact Or.inr rfl
  · cases h

theorem vision_classify {body : VisionRequest} : vision p.toLink "classify" body ≠ .ok v := by
  intro h
  unfold vision at h
  rw [if_neg (by simp)] at h
  by_cases himage : body.image = ""
  · rw [if_pos himage] at h
    cases h
  · rw [if_neg himage] at h
    obtain ⟨a, hpost, hstatus⟩ := post_of_served h
    have hsent := sent_classify hpost
    omega

/-! ## What the replies carry -/

/-- A text that is empty stands for the empty text. -/
theorem orElse_str (s : String) : Json.orElse (some (.str s)) (.str "") = (.str s : Value) := by
  by_cases h : s = "" <;> simp [Json.orElse, Json.truthy, h]

/-- The reply to a completion has its text, the name that was asked for, and no counts. -/
theorem completed_inferred (meter : Meter) (body : ChatCompletionRequest) (c : Children)
    (completion : Completion) (loadMs : Number) :
    ∃ v, completed meter body (HostAgent.Adapters.inferred c completion loadMs) = .ok v ∧
      v.find [.name "choices", .index 0, .name "message", .name "content"] =
        some (.str completion.content) ∧
      v.find [.name "model"] = some (.str body.model) ∧
      ∀ count ∈ ["prompt_tokens", "completion_tokens", "total_tokens"],
        v.find [.name "usage", .name count] = some (number 0) := by
  refine ⟨_, rfl, ?_, rfl, ?_⟩
  · show some (Json.orElse (some (.str completion.content)) (.str "")) = _
    rw [orElse_str]
  · intro count hcount
    simp only [List.mem_cons, List.not_mem_nil, or_false] at hcount
    rcases hcount with rfl | rfl | rfl <;> rfl

/-- One embedding for each vector, in their order. -/
theorem embedded_vectors (meter : Meter) (body : EmbeddingsRequest) (vectors : List (List Number)) :
    ∃ v data, embedded meter body (.arr (vectors.map vector)) = .ok v ∧
      v.find [.name "data"] = some (.arr data) ∧ data.length = vectors.length ∧
      data.map (fun d => d.find [.name "embedding"]) = vectors.map fun x => some (vector x) := by
  refine ⟨_, _, rfl, rfl, ?_, ?_⟩
  · simp
  · have hfind : ∀ d : Value × ℕ, (embedding d.1 d.2).find [.name "embedding"] = some d.1 :=
      fun d => rfl
    rw [List.map_map]
    calc (vectors.map vector).zipIdx.map ((fun d => d.find [.name "embedding"]) ∘
          fun p => embedding p.1 p.2)
        = (vectors.map vector).zipIdx.map (some ∘ Prod.fst) := List.map_congr_left fun d _ => hfind d
      _ = vectors.map fun x => some (vector x) := by
          rw [← List.map_map, List.zipIdx_map_fst, List.map_map]
          rfl

/-! ## When they agree -/

variable {meter : Meter}

/-- Who is given a response had the request accepted. -/
theorem sent_of_run {link : Link} {r : Request} (h : run link meter r = .ok v) :
    ∃ a, sent link r = .ok a ∧ status a = 200 := by
  cases r with
  | chat body =>
    simp only [run, chatCompletions] at h
    split at h
    · cases h
    · exact post_of_served h
  | embeddings body =>
    simp only [run, TenantSurface.embeddings] at h
    split at h
    · cases h
    · exact post_of_served h
  | transcription body =>
    simp only [run, transcriptions] at h
    show ∃ a, (audioPayload body >>= fun payload =>
      post link "/engines/asr/transcribe" payload) = .ok a ∧ status a = 200
    cases hpayload : audioPayload body with
    | error stop =>
      rw [hpayload] at h
      cases h
    | ok payload =>
      rw [hpayload] at h
      exact post_of_served h
  | classify body =>
    simp only [run, vision] at h
    split at h
    · cases h
    · split at h
      · cases h
      · exact post_of_served h

theorem relays_iff_reply {r : Request} :
    Relays p meter r ↔ ∃ v, run p.toLink meter r = .ok v ∧ Carries p r v := by
  constructor
  · rintro ⟨a, v, -, -, hrun, hcarries⟩
    exact ⟨v, hrun, hcarries⟩
  · rintro ⟨v, hrun, hcarries⟩
    obtain ⟨a, hsent, hstatus⟩ := sent_of_run hrun
    exact ⟨a, v, hsent, by simp [hstatus], hrun, hcarries⟩

theorem number_inj {m n : ℕ} : number m = number n ↔ m = n := by
  simp [number]

/-- A chat is answered with the name that was asked for, and with counts of 0. -/
theorem chat_relays {body : ChatCompletionRequest} (hmessages : body.messages ≠ []) :
    Relays p meter (.chat body) ↔ Meets p (.chat body) := by
  obtain ⟨v, hreply, htext, hmodel, hcounts⟩ :=
    completed_inferred meter body p.children (p.completion body) p.children.loadMs
  simp only [List.mem_cons, List.not_mem_nil, or_false, forall_eq_or_imp, forall_eq] at hcounts
  obtain ⟨hprompt, hcompletion, htotal⟩ := hcounts
  have hcarries : Carries p (.chat body) v ↔ body.model = p.children.served ∧
      (p.completion body).promptTokens = 0 ∧ (p.completion body).completionTokens = 0 ∧
      (p.completion body).totalTokens = 0 := by
    simp only [Carries, htext, hmodel, hprompt, hcompletion, htotal, Option.some.injEq,
      Json.str.injEq, number_inj, true_and, eq_comm]
  rw [relays_iff_reply]
  simp only [run, chatCompletions_iff hmessages, hreply, Except.ok.injEq, Meets]
  constructor
  · rintro ⟨w, ⟨hfinite, hfits, rfl⟩, hw⟩
    exact ⟨hfinite, hfits, hcarries.mp hw⟩
  · rintro ⟨hfinite, hfits, hrest⟩
    exact ⟨v, ⟨hfinite, hfits, rfl⟩, hcarries.mpr hrest⟩

theorem embeddings_relays {body : EmbeddingsRequest} (htexts : body.texts ≠ []) :
    Relays p meter (.embeddings body) ↔ Meets p (.embeddings body) := by
  obtain ⟨v, data, hreply, hdata, hlength, hvectors⟩ :=
    embedded_vectors meter body (p.children.encode body.texts)
  rw [relays_iff_reply]
  simp only [run, embeddings_iff htexts, hreply, Except.ok.injEq, Meets]
  constructor
  · rintro ⟨w, ⟨hfits, rfl⟩, -⟩
    exact hfits
  · intro hfits
    refine ⟨v, ⟨hfits, rfl⟩, data, hdata, ?_, hvectors⟩
    rw [hlength, p.children.encode_length]

theorem classify_relays {body : VisionRequest} :
    Relays p meter (.classify body) ↔ Meets p (.classify body) := by
  rw [relays_iff_reply]
  exact iff_of_false (fun h => h.elim fun v hv => vision_classify hv.1) (by simp [Meets])

/-- The audio that a file is sent as. -/
theorem audio?_encode (codec : Codec) (bytes : List Byte) :
    HostAgent.Adapters.audio? codec (.str (String.ofList (Base64.encode bytes))) = some bytes := by
  rw [HostAgent.Adapters.audio?, String.toList_ofList, codec.decode_encode]

theorem truthy_encode (bytes : List Byte) :
    (Json.str (String.ofList (Base64.encode bytes)) : Value).truthy = true ↔ bytes ≠ [] := by
  have hempty : String.ofList (Base64.encode bytes) = "" ↔ Base64.encode bytes = [] := by
    rw [← String.toList_inj, String.toList_ofList]
    rfl
  simp [Json.truthy, hempty, Base64.encode_eq_nil]

/-- What decodes is a text. -/
theorem isFinite_of_audio {codec : Codec} {b64 : Value}
    (h : (HostAgent.Adapters.audio? codec b64).isSome = true) : b64.all isFinite = true := by
  cases b64 with
  | str s => exact Json.all_str
  | _ => simp [HostAgent.Adapters.audio?] at h

/-- A transcription by its payload. -/
theorem transcription_relays {body : Form ⊕ Value} {b64 filename language : Value}
    (hpayload : audioPayload body = .ok (transcribePayload b64 filename language))
    (huploaded : p.uploaded body = (HostAgent.Adapters.audio? p.codec b64).map fun audio =>
      (audio, filename, language)) :
    Relays p meter (.transcription body) ↔
      (transcribePayload b64 filename language).all isFinite = true ∧
        Fits p (transcribePayload b64 filename language) ∧ b64.truthy = true ∧
        (HostAgent.Adapters.audio? p.codec b64).isSome = true := by
  have hrun : run p.toLink meter (.transcription body) = served p.toLink "/engines/asr/transcribe"
      (transcribePayload b64 filename language) transcribed := by
    rw [run, transcriptions, hpayload]
    rfl
  rw [relays_iff_reply, hrun]
  simp only [transcribe_iff]
  constructor
  · rintro ⟨v, ⟨hfinite, hfits, htruthy, audio, haudio, -⟩, -⟩
    exact ⟨hfinite, hfits, htruthy, by rw [haudio]; rfl⟩
  · rintro ⟨hfinite, hfits, htruthy, hsome⟩
    obtain ⟨audio, haudio⟩ := Option.isSome_iff_exists.mp hsome
    refine ⟨_, ⟨hfinite, hfits, htruthy, audio, haudio, rfl⟩, audio, filename, language, ?_, rfl⟩
    rw [huploaded, haudio]
    rfl

theorem form_relays {form : Form} (hfile : form.file ≠ none) :
    Relays p meter (.transcription (.inl form)) ↔ Meets p (.transcription (.inl form)) := by
  cases hpart : form.file with
  | none => exact absurd hpart hfile
  | some part =>
    cases part with
    | field s =>
      rw [relays_iff_reply]
      simp [run, transcriptions, audioPayload, formPayload, hpart, Meets, bind, Except.bind]
    | file filename bytes =>
      have hpayload : audioPayload (.inl form) =
          .ok (filePayload filename bytes form.language) := by
        simp [audioPayload, formPayload, hpart]
      have huploaded : p.uploaded (.inl form) =
          (HostAgent.Adapters.audio? p.codec (.str (String.ofList (Base64.encode bytes)))).map
            fun audio => (audio, .str filename, .str form.language) := by
        simp [Platform.uploaded, hpart, audio?_encode]
      rw [transcription_relays hpayload huploaded, audio?_encode, truthy_encode]
      simp [Meets, hpart, filePayload, transcribePayload, and_comm]

theorem json_relays {body : Value}
    (haudio : ∀ ms, body = .obj ms → (audioOf (Conversions.ofMembers ms)).truthy = true) :
    Relays p meter (.transcription (.inr body)) ↔ Meets p (.transcription (.inr body)) := by
  cases body with
  | obj ms =>
    have htruthy := haudio ms rfl
    have hpayload : audioPayload (.inr (.obj ms)) =
        .ok (bodyPayload (Conversions.ofMembers ms)) := by
      simp [audioPayload, jsonPayload, members, htruthy, bind, Except.bind, pure, Except.pure]
    rw [transcription_relays hpayload rfl]
    simp only [Meets, Json.obj.injEq, exists_eq_left', Platform.uploaded, Option.isSome_map]
    constructor
    · rintro ⟨hfinite, hfits, -, hdecodes⟩
      simp only [transcribePayload, Json.all_obj, List.all_cons, List.all_nil, Bool.and_eq_true,
        and_true] at hfinite
      exact ⟨hdecodes, hfinite.2.1, hfinite.2.2, hfits⟩
    · rintro ⟨hdecodes, hfilename, hlanguage, hfits⟩
      refine ⟨?_, hfits, htruthy, hdecodes⟩
      simp [transcribePayload, isFinite_of_audio hdecodes, hfilename, hlanguage]
  | _ =>
    rw [relays_iff_reply]
    simp [run, transcriptions, audioPayload, jsonPayload, members, Meets, bind, Except.bind]

/-- Which requests the surface and the engines agree on. -/
theorem relays_iff (p : Platform) (meter : Meter) (r : Request) (h : Passes r) :
    Relays p meter r ↔ Meets p r := by
  cases r with
  | chat body => exact chat_relays h
  | embeddings body => exact embeddings_relays h
  | transcription body =>
    cases body with
    | inl form => exact form_relays h
    | inr body => exact json_relays h
  | classify body => exact classify_relays

/-! ## At a concrete request -/

/-- Children that give back what they are given. -/
def echo : Children where
  served := "qwen"
  complete _ _ _ := ⟨"hi", 3, 1, 4⟩
  whisperModel := "whisper"
  transcribe _ filename _ := filename
  encode texts := texts.map fun s => [.fin s.length]
  encode_length := by simp
  image _ _ := none
  classify _ := [("cat", .fin 1)]
  visionModel := "vision-mobilenet"
  device := "cpu"
  inferMs := .fin 1
  loadMs := .fin 0

def strict : Codec where
  decode := Base64.decode
  decode_encode := Base64.decode_encode

def idle : Engine where
  state := "ready"
  reason := none
  health := none
  resident := true
  verbs := []
  streamVerbs := []
  admitted _ := .ok (.fin 0)
  forward := none
  forwardMultipart := none
  unloaded := .empty

/-- The bytes of a text's vector, or of an image, when written. -/
def written : Value → ℕ
  | .obj [("texts", .arr [.str s])] => 14 + s.length
  | .obj [("image_b64", .str s)] => 16 + s.length
  | _ => 0

def desk : Platform where
  env := HostAgent.Routes.plain
  agent := { HostAgent.Routes.bare with
    engines := HostAgent.Adapters.engines HostAgent.Routes.plain strict echo idle }
  maxJsonBytes := 1048576
  size := written
  codec := strict
  children := echo
  rest := idle
  engines_eq := rfl

def anHour : Meter := ⟨"req-1", 1700000000, .fin 0⟩

/-- One text has its embedding. -/
theorem relays_hi : Relays desk anHour (.embeddings ⟨"", .inl "hi"⟩) := by
  refine (relays_iff desk anHour (.embeddings ⟨"", .inl "hi"⟩) ?_).mpr ?_
  · simp [Passes, EmbeddingsRequest.texts]
  · show written (.obj [("texts", .arr [.str "hi"])]) ≤ 1048576
    decide

/-- An image is turned away with 415. -/
theorem image_refused : Passes (.classify ⟨"", "TWFu"⟩) ∧
    (∃ a, sent desk.toLink (.classify ⟨"", "TWFu"⟩) = .ok a ∧ status a = 415) ∧
    ¬ Relays desk anHour (.classify ⟨"", "TWFu"⟩) := by
  refine ⟨by simp [Passes], ?_, by simp [classify_relays, Meets]⟩
  exact ⟨_, rfl, rfl⟩

end MlopsLite.Gateway.TenantSurface
