import MlopsLite.Lib.Utf8
import MlopsLite.Gateway.Console.Predictions

/-!
# Predictions — the reveal of a payload

`payload_preview` (`gateway/app/console/predictions.py`), `prediction_row` and
`payload_bytes` (`sources.py`) and `console_reveal_payload`
(`gateway/app/routers/console.py`), over what `log_prediction`
(`gateway/app/quality.py`) has written. A reference is the key of an object; it is
read back as the URL of one.
-/

namespace MlopsLite.Gateway.Console

open Quality (Time PredictionRow)

abbrev Bytes := List UInt8

/-- A bucket and a key. -/
abbrev Location := String × String

/-! ## The preview -/

/-- `PREVIEW_LIMIT_BYTES`. -/
def previewLimitBytes : ℕ := 4096

/-- `PayloadPreview`; its `preview` is there only when it is revealed. -/
structure PayloadPreview where
  available : Bool
  revealed : Bool
  truncated : Bool
  totalBytes : Option ℕ
  redactedFields : List String
  preview : Option (List Char)
  deriving DecidableEq

/-- What `payload_preview` takes for the content. -/
inductive Content
  | text (s : List Char)
  | bytes (b : Bytes)

/-- `b.decode("utf-8", "replace")` of what is not a text already. -/
def Content.body : Option Content → List Char
  | some (.text s) => s
  | some (.bytes b) => UrlPath.decodeFrom 0 b
  | none => []

/-- `payload_preview`. -/
def payloadPreview (available : Bool) (totalBytes : Option ℕ) (redactedFields : List String)
    (content : Option Content) (revealed : Bool) : PayloadPreview :=
  if !revealed then ⟨available, false, false, totalBytes, redactedFields, none⟩
  else
    let body := Utf8.encode (Content.body content)
    if previewLimitBytes < body.length then
      ⟨available, true, true, totalBytes, redactedFields,
        some (Utf8.ignoring 0 (body.take previewLimitBytes))⟩
    else ⟨available, true, false, totalBytes, redactedFields, some (Content.body content)⟩

/-- A revealed text is cut to what fits, and the preview says so. -/
theorem payloadPreview_text (available : Bool) (totalBytes : Option ℕ)
    (redactedFields : List String) (s : List Char) :
    ∃ p, Utf8.IsCut previewLimitBytes s p ∧
      payloadPreview available totalBytes redactedFields (some (.bytes (Utf8.encode s))) true =
        ⟨available, true, previewLimitBytes < (Utf8.encode s).length, totalBytes, redactedFields,
          some p⟩ := by
  have hbody : Content.body (some (.bytes (Utf8.encode s))) = s := UrlPath.decodeFrom_flatMap s
  by_cases h : previewLimitBytes < (Utf8.encode s).length
  · refine ⟨_, Utf8.isCut_ignoring_take previewLimitBytes s, ?_⟩
    simp [payloadPreview, hbody, h]
  · refine ⟨s, Utf8.isCut_self (not_lt.mp h), ?_⟩
    simp [payloadPreview, hbody, h]

/-! ## The stores -/

/-- The tables of the gateway and the objects. -/
structure World where
  tables : Tables
  objects : Dict Location Bytes

/-- `f"{PRED_PREFIX}{pid}.json"`. -/
def payloadRef (predictionId : String) : String := "predictions/" ++ predictionId ++ ".json"

/-- A call of `log_prediction`; `record` is the text `json.dumps` makes of its record. -/
structure LogCall where
  predictionId : String
  modelName : String
  modelVersion : String
  modality : String
  ts : Time
  record : List Char

def LogCall.row (l : LogCall) : PredictionRow :=
  ⟨l.modelName, l.modelVersion, l.modality, l.ts, some (payloadRef l.predictionId)⟩

/-- Where its body is put. -/
def LogCall.location (resultsBucket : String) (l : LogCall) : Location :=
  (resultsBucket, payloadRef l.predictionId)

/-- `INSERT … ON CONFLICT (prediction_id) DO NOTHING`. -/
def Tables.logPrediction (x : Tables) (l : LogCall) : Tables :=
  if (x.predictions.get? l.predictionId).isSome then x
  else
    { x with
      predictions := x.predictions.insert l.predictionId l.row
      labels_of := fun id label h => by
        rw [Dict.get?_insert]
        split_ifs
        · rfl
        · exact x.labels_of id label h }

/-- `log_prediction`, with both of its writes. -/
def World.logPrediction (resultsBucket : String) (w : World) (l : LogCall) : World where
  tables := w.tables.logPrediction l
  objects := w.objects.insert (l.location resultsBucket) (Utf8.encode l.record)

/-! ## The route -/

namespace World

variable (w : World)

/-- `prediction_row`. -/
def predictionRow (predictionId : String) : Option ServedRow :=
  (w.tables.predictions.get? predictionId).map fun p =>
    { predictionId := predictionId
      servedAt := p.servedAt
      modelName := p.modelName
      version := p.version
      modality := p.modality
      payloadRef := p.payloadRef
      label := w.tables.labels.get? predictionId }

/-- `str(payload_ref)[len("s3://"):].partition("/")`. -/
def payloadLocation (ref : String) : Location :=
  let rest := ref.toList.drop "s3://".length
  (String.ofList (rest.takeWhile (· ≠ '/')), String.ofList ((rest.dropWhile (· ≠ '/')).drop 1))

/-- `payload_bytes`; `none` where the read raises. -/
def payloadBytes (ref : String) : Option Bytes := w.objects.get? (payloadLocation ref)

/-- The answer with the objects that were read for it. -/
structure Revealed where
  answer : PayloadPreview
  read : List Location

/-- `console_reveal_payload`; `none` is the 400 for two ids that disagree. -/
def consoleRevealPayload (path body : String) : Option Revealed :=
  if body ≠ path then none
  else
    match (w.predictionRow path).bind ServedRow.payloadRef with
    | none => some ⟨payloadPreview false none [] none false, []⟩
    | some ref =>
        if ref = "" then some ⟨payloadPreview false none [] none false, []⟩
        else
          match w.payloadBytes ref with
          | none => some ⟨payloadPreview true none [] none false, []⟩
          | some content =>
              some ⟨payloadPreview true (some content.length) [] (some (.bytes content)) true,
                [payloadLocation ref]⟩

end World

/-! ## What is revealed of a logged prediction -/

/-- A logged prediction, whose row and body are still there. -/
structure Recorded where
  resultsBucket : String
  call : LogCall
  world : World
  row : world.tables.predictions.get? call.predictionId = some call.row
  body : world.objects.get? (call.location resultsBucket) = some (Utf8.encode call.record)

/-- After a call that wrote its row. -/
def Recorded.ofCall (resultsBucket : String) (w : World) (l : LogCall)
    (hnew : w.tables.predictions.get? l.predictionId = none) : Recorded where
  resultsBucket := resultsBucket
  call := l
  world := w.logPrediction resultsBucket l
  row := by
    show (w.tables.logPrediction l).predictions.get? l.predictionId = _
    rw [Tables.logPrediction, hnew]
    exact Dict.get?_insert_self ..
  body := Dict.get?_insert_self ..

/-- The route gives the body of the prediction, cut to what fits, and reads nothing else. -/
structure RevealExact (r : Recorded) : Prop where
  answer : ∃ shown p, r.world.consoleRevealPayload r.call.predictionId r.call.predictionId =
      some shown ∧ Utf8.IsCut previewLimitBytes r.call.record p ∧
    shown.answer = ⟨true, true, previewLimitBytes < (Utf8.encode r.call.record).length,
      some (Utf8.encode r.call.record).length, [], some p⟩
  own : ∀ shown, r.world.consoleRevealPayload r.call.predictionId r.call.predictionId =
    some shown → ∀ loc ∈ shown.read, loc = r.call.location r.resultsBucket

/-- Five characters of the key are taken for a scheme, and the rest of its folder for a
bucket. -/
theorem payloadLocation_payloadRef (id : String) :
    World.payloadLocation (payloadRef id) = ("ctions", id ++ ".json") := by
  have hrest : (payloadRef id).toList.drop "s3://".length =
      "ctions".toList ++ '/' :: (id ++ ".json").toList := by
    simp [payloadRef]
    rfl
  have hstop : ∀ rest : List Char, ("ctions".toList ++ '/' :: rest).takeWhile (· ≠ '/') =
      "ctions".toList := fun rest => rfl
  have hskip : ∀ rest : List Char, ("ctions".toList ++ '/' :: rest).dropWhile (· ≠ '/') =
      '/' :: rest := fun rest => rfl
  rw [World.payloadLocation, hrest, hstop, hskip, String.ofList_toList]
  exact congrArg _ String.ofList_toList

theorem payloadLocation_ne (resultsBucket : String) (l : LogCall) :
    World.payloadLocation (payloadRef l.predictionId) ≠ l.location resultsBucket := by
  rw [payloadLocation_payloadRef]
  intro h
  have hkey : l.predictionId ++ ".json" = "predictions/" ++ l.predictionId ++ ".json" :=
    congrArg Prod.snd h
  have hlength := congrArg String.length hkey
  simp only [String.length_append] at hlength
  have hfolder : "predictions/".length = 12 := rfl
  omega

/-- What the route does for a logged prediction. -/
theorem reveal_recorded (r : Recorded) :
    r.world.consoleRevealPayload r.call.predictionId r.call.predictionId =
      match r.world.payloadBytes (payloadRef r.call.predictionId) with
      | none => some ⟨payloadPreview true none [] none false, []⟩
      | some content =>
          some ⟨payloadPreview true (some content.length) [] (some (.bytes content)) true,
            [World.payloadLocation (payloadRef r.call.predictionId)]⟩ := by
  have hrow : (r.world.predictionRow r.call.predictionId).bind ServedRow.payloadRef =
      some (payloadRef r.call.predictionId) := by
    rw [World.predictionRow, r.row]
    rfl
  have hne : payloadRef r.call.predictionId ≠ "" := by
    intro h
    have hlength := congrArg String.length h
    simp [payloadRef] at hlength
  rw [World.consoleRevealPayload, if_neg (fun h => h rfl), hrow]
  dsimp only
  rw [if_neg hne]

/-- No logged prediction is revealed: its own body is never the object that is read. -/
theorem not_revealExact (r : Recorded) : ¬ RevealExact r := by
  intro h
  have hreveal := reveal_recorded r
  cases hcontent : r.world.payloadBytes (payloadRef r.call.predictionId) with
  | none =>
    rw [hcontent] at hreveal
    obtain ⟨shown, p, hshown, -, hanswer⟩ := h.answer
    rw [hreveal] at hshown
    cases hshown
    exact Bool.false_ne_true (congrArg PayloadPreview.revealed hanswer)
  | some content =>
    rw [hcontent] at hreveal
    exact payloadLocation_ne _ _ (h.own _ hreveal _ List.mem_cons_self)

def noTables : Tables where
  predictions := .empty
  labels := .empty
  captures := .empty
  labels_of _ _ h := absurd h (Option.some_ne_none _).symm
  labels_ne_null _ := (Option.some_ne_none _).symm

/-- One prediction, logged to empty stores. -/
def firstLogged : Recorded :=
  .ofCall "results" ⟨noTables, .empty⟩
    ⟨"p", "m", "1", "asr", 5, "\x7b\x7d".toList⟩ rfl

/-- Its payload is available, and not shown. -/
theorem firstLogged_hidden :
    (firstLogged.world.consoleRevealPayload "p" "p").map World.Revealed.answer =
      some ⟨true, false, false, none, [], none⟩ ∧ ¬ RevealExact firstLogged := by
  have hanswer : (firstLogged.world.consoleRevealPayload "p" "p").map World.Revealed.answer =
      some ⟨true, false, false, none, [], none⟩ := by decide +kernel
  refine ⟨hanswer, fun h => ?_⟩
  obtain ⟨shown, p, hshown, -, hrevealed⟩ := h.answer
  have hshown : firstLogged.world.consoleRevealPayload "p" "p" = some shown := hshown
  rw [hshown] at hanswer
  have hhidden := Option.some.inj hanswer
  rw [hrevealed] at hhidden
  exact Bool.false_ne_true (congrArg PayloadPreview.revealed hhidden).symm

end MlopsLite.Gateway.Console
