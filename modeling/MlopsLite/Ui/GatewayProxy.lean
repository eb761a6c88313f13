import MlopsLite.Lib.UrlPath

/-!
# GatewayProxy — the operator key and the allow-list

The console's proxy (`app/api/gw/[...path]/route.ts`, `lib/gw-allowlist.ts`):
a request's method and path segments are matched against the list, the
segments are joined again behind the gateway's origin, and the key is attached.
The gateway serves the path its own decoding yields.
-/

namespace MlopsLite.Ui

open UrlPath

structure AllowEntry where
  method : String
  pattern : String

def ALLOWLIST : List AllowEntry := [
  ⟨"GET", "datasets"⟩,
  ⟨"POST", "datasets"⟩,
  ⟨"GET", "datasets/:name"⟩,
  ⟨"GET", "datasets/:name/:version"⟩,
  ⟨"GET", "datasets/:name/:version/download"⟩,
  ⟨"POST", "datasets/:name/:version/validate"⟩,
  ⟨"POST", "runs"⟩,
  ⟨"GET", "runs/:id"⟩,
  ⟨"GET", "runs/:id/events"⟩,
  ⟨"POST", "studies"⟩,
  ⟨"GET", "studies/:id"⟩,
  ⟨"GET", "models"⟩,
  ⟨"GET", "models/:name"⟩,
  ⟨"POST", "models/:name/promote"⟩,
  ⟨"POST", "models/:name/evaluate"⟩,
  ⟨"POST", "models/:name/compare"⟩,
  ⟨"GET", "serving/state"⟩,
  ⟨"GET", "serving/llm/activation"⟩,
  ⟨"GET", "serving/tasks"⟩,
  ⟨"POST", "infer"⟩,
  ⟨"POST", "infer/stream"⟩,
  ⟨"POST", "vision/classify"⟩,
  ⟨"POST", "embed"⟩,
  ⟨"POST", "transcribe"⟩,
  ⟨"POST", "predict"⟩,
  ⟨"POST", "batch"⟩,
  ⟨"GET", "batch/:id"⟩,
  ⟨"POST", "monitor/check"⟩,
  ⟨"GET", "monitor"⟩,
  ⟨"POST", "monitor/quality/check"⟩,
  ⟨"GET", "monitor/quality"⟩,
  ⟨"POST", "monitor/labels"⟩,
  ⟨"GET", "policies"⟩,
  ⟨"GET", "policies/:model"⟩,
  ⟨"PUT", "policies/:model"⟩,
  ⟨"DELETE", "policies/:model"⟩,
  ⟨"GET", "policies/:model/status"⟩,
  ⟨"GET", "suggestions"⟩,
  ⟨"POST", "suggestions/:id/accept"⟩,
  ⟨"POST", "suggestions/:id/dismiss"⟩,
  ⟨"GET", "platform/health"⟩,
  ⟨"GET", "platform/events"⟩,
  ⟨"GET", "serving/health"⟩,
  ⟨"GET", "predict/health"⟩,
  ⟨"GET", "vision/health"⟩,
  ⟨"GET", "embed/health"⟩,
  ⟨"GET", "transcribe/health"⟩,
  ⟨"GET", "training/health"⟩,
  ⟨"GET", "admin/queue"⟩,
  ⟨"GET", "admin/usage"⟩,
  ⟨"GET", "admin/tenants"⟩,
  ⟨"POST", "admin/tenants"⟩,
  ⟨"POST", "admin/tenants/:id/keys"⟩,
  ⟨"POST", "admin/tenants/:id/revoke"⟩,
  ⟨"POST", "admin/tenants/:id/enable"⟩,
  ⟨"PUT", "admin/tenants/:id/quota"⟩,
  ⟨"POST", "admin/keys/:id/revoke"⟩,
  ⟨"POST", "admin/jobs/:id/:action"⟩,
  ⟨"GET", "console/health"⟩,
  ⟨"GET", "console/capabilities"⟩,
  ⟨"GET", "console/summary"⟩,
  ⟨"GET", "console/attention"⟩,
  ⟨"GET", "console/activity"⟩,
  ⟨"GET", "console/search"⟩,
  ⟨"GET", "console/catalog"⟩,
  ⟨"GET", "console/catalog/:name/:version"⟩,
  ⟨"GET", "console/catalog/:name/:version/compatibility"⟩,
  ⟨"GET", "console/jobs"⟩,
  ⟨"GET", "console/jobs/:id"⟩,
  ⟨"GET", "console/runs"⟩,
  ⟨"GET", "console/experiments"⟩,
  ⟨"GET", "console/studies/:id/trials"⟩,
  ⟨"GET", "console/evaluations"⟩,
  ⟨"GET", "console/evaluations/:name/:version"⟩,
  ⟨"GET", "console/gates"⟩,
  ⟨"GET", "console/compare"⟩,
  ⟨"GET", "console/drift"⟩,
  ⟨"GET", "console/predictions"⟩,
  ⟨"GET", "console/predictions/:id"⟩,
  ⟨"POST", "console/predictions/:id/payload"⟩,
  ⟨"GET", "console/captures"⟩,
  ⟨"GET", "console/review-queue"⟩,
  ⟨"GET", "console/traces"⟩,
  ⟨"GET", "console/traces/:id"⟩,
  ⟨"GET", "console/endpoints"⟩,
  ⟨"GET", "console/endpoints/:id"⟩,
  ⟨"GET", "console/datasets"⟩,
  ⟨"GET", "console/datasets/:name/:version"⟩,
  ⟨"GET", "console/artifacts"⟩,
  ⟨"GET", "console/metrics/summary"⟩,
  ⟨"GET", "console/metrics/series"⟩,
  ⟨"GET", "console/alerts"⟩,
  ⟨"GET", "console/dashboards"⟩,
  ⟨"GET", "console/admin/storage"⟩,
  ⟨"GET", "console/admin/database"⟩,
  ⟨"GET", "console/admin/integrations"⟩,
  ⟨"GET", "console/admin/system"⟩,
  ⟨"GET", "runtime/hosts"⟩,
  ⟨"GET", "runtime/hosts/:host/devices"⟩,
  ⟨"GET", "runtime/engines"⟩,
  ⟨"GET", "runtime/admission"⟩,
  ⟨"GET", "runtime/journal"⟩
]

/-- `p` matches the segment: `:param` any one, another text itself. -/
def matchesSegment (p segment : List Char) : Bool := p.head? = some ':' ∨ p = segment

def AllowEntry.matchesPath (e : AllowEntry) (segments : List (List Char)) : Bool :=
  let pat := e.pattern.toList.splitOn '/'
  pat.length = segments.length ∧ (pat.zip segments).all fun (p, s) => matchesSegment p s

/-- `toUpperCase` of a method, which is a token and so ASCII. -/
def toUpperCase (method : List Char) : List Char := method.map Char.toUpper

def isAllowed (method : List Char) (segments : List (List Char)) : Bool :=
  ALLOWLIST.any fun e => e.method.toList = toUpperCase method ∧ e.matchesPath segments

/-- What `fetch` is given; `target` is what follows `GATEWAY_URL` and a slash,
`key` the operator's key if one is configured. -/
structure GatewayRequest where
  method : List Char
  target : List Char
  key : Option String

/-- The proxy behind its origin guard; `none` is its 404. -/
def proxy (apiKey : Option String) (method : List Char) (path : List (List Char))
    (search : Option Query) : Option GatewayRequest :=
  if isAllowed method path then
    some { method := toUpperCase method, target := target path search, key := apiKey }
  else none

/-- The segments and the query the gateway routes a request by. -/
def GatewayRequest.reaches (r : GatewayRequest) : List (List Char) × Option (List Char) :=
  received r.target

theorem ne_nil_of_matchesPath {e : AllowEntry} {segments : List (List Char)}
    (h : e.matchesPath segments = true) : segments ≠ [] := by
  rintro rfl
  simp only [AllowEntry.matchesPath, List.length_nil, decide_eq_true_eq] at h
  exact List.splitOn_ne_nil '/' e.pattern.toList (List.length_eq_zero_iff.mp h.1)

theorem ne_nil_of_isAllowed {method : List Char} {segments : List (List Char)}
    (h : isAllowed method segments = true) : segments ≠ [] := by
  obtain ⟨e, _, he⟩ := List.any_eq_true.mp h
  rw [decide_eq_true_eq] at he
  exact ne_nil_of_matchesPath he.2

/-- An allow-listed request reaches the gateway under the path and the query it
was checked with if and only if the URL parser and the gateway's decoding leave
its segments alone. -/
theorem proxy_reaches_iff (apiKey : Option String) {method : List Char}
    {path : List (List Char)} (h : isAllowed method path = true) (search : Option Query) :
    (∃ r, proxy apiKey method path search = some r ∧
        r.reaches = (path, search.map Query.text)) ↔ Inert path search := by
  rw [proxy, if_pos h]
  simp only [Option.some.injEq, exists_eq_left', GatewayRequest.reaches]
  exact received_eq_iff (ne_nil_of_isAllowed h) search

theorem proxy_reaches_dataset :
    (∃ r, proxy (some "key") "GET".toList ["datasets".toList, "iris".toList] none = some r ∧
        r.reaches = (["datasets".toList, "iris".toList], none)) ↔
      Inert ["datasets".toList, "iris".toList] none :=
  proxy_reaches_iff (some "key") (by decide +kernel) none

/-- A dataset's name carries the operator's key to a route that is not on the list. -/
theorem datasetName_escapes :
    ¬ ∀ (apiKey : Option String) (method : List Char) (path : List (List Char))
        (search : Option Query), isAllowed method path = true →
      ∃ r, proxy apiKey method path search = some r ∧
        r.reaches = (path, search.map Query.text) := by
  intro h
  obtain ⟨r, hr, hreach⟩ :=
    h (some "key") "GET".toList ["datasets".toList, "../v1/models".toList] none (by decide +kernel)
  rw [proxy, if_pos (by decide +kernel)] at hr
  obtain rfl := Option.some_inj.mp hr
  revert hreach
  decide +kernel

example :
    (proxy (some "key") "GET".toList ["datasets".toList, "../v1/models".toList] none).map
        (fun r => (r.key, r.reaches)) = some (some "key", ["v1".toList, "models".toList], none) := by
  decide +kernel

end MlopsLite.Ui
