import MlopsLite.Lib.Texts
import MlopsLite.Lib.Utf8
import MlopsLite.PlatformLib.Tenancy

/-!
# Credentials — the four gates

`require_api_key` (`gateway/app/auth.py`), `require_tenant` and `require_owner`
(`gateway/app/tenancy.py`) and `AgentAuthPolicy.authorize` (`hostagent/auth.py`).
Three of them compare bytes, or digests of bytes; the owner's gate compares the
texts themselves, and `hmac.compare_digest` takes only ASCII ones.
-/

namespace MlopsLite.Gateway.Credentials

open PlatformLib.Tenancy (Store KeyRow KeyId TenantId Raw)
open Texts (isSpace strip)
open UrlPath (isAscii lower)

/-- The value of a header; `none` is a header that was not sent. -/
abbrev Header := Option (List Char)

/-! ## Answers -/

structure Refusal where
  status : ℕ
  detail : String
  deriving DecidableEq

/-- A gate lets a request through, with what it found out, or refuses it, or falls over. -/
inductive Answer (α : Type)
  | passes (a : α)
  | refuses (r : Refusal)
  | raises
  deriving DecidableEq

def Answer.Admits {α : Type} (answer : Answer α) : Prop := ∃ a, answer = .passes a

/-- `HTTPException` of `require_api_key` in keyed mode. -/
def invalidApiKey : Refusal := ⟨401, "missing or invalid API key"⟩

/-- The one in closed mode. -/
def failClosed : Refusal :=
  ⟨401, "gateway is fail-closed: set GATEWAY_API_KEYS (run scripts/gen_secrets) " ++
    "or GATEWAY_ALLOW_OPEN=1 for dev"⟩

def tlsRequired : Refusal :=
  ⟨401, "TLS is required on the broker surface (FR-002a): bearer keys must not cross the " ++
    "LAN in plaintext. Use https://; the request is refused rather than redirected so " ++
    "the key is not sent again over http."⟩

def missingBearer : Refusal :=
  ⟨401, "missing bearer token: send `Authorization: Bearer <api-key>`"⟩

def invalidTenantKey : Refusal := ⟨401, "invalid or revoked API key"⟩

/-- `store_unavailable`; its text is the driver's. -/
def storeUnavailable : Refusal := ⟨503, "store_unavailable"⟩

def adminClosed : Refusal :=
  ⟨401, "the broker admin surface is closed: set BROKER_ADMIN_KEYS (or GATEWAY_API_KEYS)"⟩

def ownerRequired : Refusal := ⟨401, "owner credentials required"⟩

/-- `MISSING`. -/
def agentMissing : Refusal := ⟨401, "agent authentication required"⟩

/-- `WRONG`. -/
def agentWrong : Refusal := ⟨403, "agent authentication failed"⟩

/-! ## Configuration -/

/-- The environment, and the lines of the file GATEWAY_API_KEYS_FILE names, if it is there. -/
structure Env where
  gatewayApiKeys : Header
  gatewayApiKeysFile : Option (List (List Char))
  gatewayAllowOpen : Header
  brokerAdminKeys : Header
  brokerAllowPlaintext : Header

/-- `(value or "").strip().lower() in _TRUTHY`. -/
def truthy (value : Header) : Bool :=
  ["1", "true", "yes", "on"].any fun t => t.toList = (strip isSpace (value.getD [])).map lower

/-- `[k for k in (s.strip() for s in text.split(",")) if k]`. -/
def keysOf (text : List Char) : List (List Char) :=
  ((text.splitOnP (· = ',')).map (strip isSpace)).filter (· ≠ [])

/-- `_load_keys`. -/
def loadKeys (env : Env) : List (List Char) :=
  keysOf (env.gatewayApiKeys.getD []) ++
    ((env.gatewayApiKeysFile.getD []).map (strip isSpace)).filter fun k =>
      k ≠ [] ∧ k.head? ≠ some '#'

def nonEmpty (s : List Char) : Option (List Char) := if s = [] then none else some s

/-- `_admin_keys`. -/
def adminKeys (env : Env) : List (List Char) :=
  keysOf (((env.brokerAdminKeys.bind nonEmpty).or env.gatewayApiKeys).getD [])

/-! ## The gateway's key -/

variable (sha256 : List UInt8 → List UInt8)

/-- `_hash`. -/
def hash (key : List Char) : List UInt8 := sha256 (Utf8.encode key)

/-- `_valid`. -/
def valid (env : Env) (presented : List Char) : Bool :=
  ((loadKeys env).map (hash sha256)).any fun h => hash sha256 presented = h

/-- `require_api_key`; the mode is worked out from the keys there are. -/
def requireApiKey (env : Env) (xApiKey : Header) : Answer Unit :=
  if loadKeys env = [] then
    if truthy env.gatewayAllowOpen then .passes () else .refuses failClosed
  else
    match xApiKey.bind nonEmpty with
    | none => .refuses invalidApiKey
    | some presented =>
        if valid sha256 env presented then .passes () else .refuses invalidApiKey

/-! ## Tenants -/

/-- `s.split(None, 1)`. -/
def splitOnce (s : List Char) : List (List Char) :=
  let s := s.dropWhile isSpace
  let rest := (s.dropWhile fun c => !isSpace c).dropWhile isSpace
  [s.takeWhile fun c => !isSpace c, rest].filter (· ≠ [])

/-- `_bearer`; of the other characters none becomes a letter of `bearer`. -/
def bearer (authorization : Header) : Option (List Char) :=
  match splitOnce (authorization.getD []) with
  | [scheme, token] =>
      if scheme.map lower = "bearer".toList then nonEmpty (strip isSpace token) else none
  | _ => none

def hexDigit (n : ℕ) : Char := "0123456789abcdef".toList.getD n '0'

/-- `hash_key`. -/
def hashKey (raw : Raw) : List Char :=
  (hash sha256 raw).flatMap fun b => [hexDigit (b.toNat / 16), hexDigit (b.toNat % 16)]

/-- Which of the calls of `resolve_tenant` to the store succeed. -/
structure Link where
  connects : Bool
  answers : Bool
  reconnects : Bool
  answersAgain : Bool

/-- A connection was dropped at most once. -/
def Link.Reachable (link : Link) : Prop :=
  link.connects ∧ (link.answers ∨ link.reconnects ∧ link.answersAgain)

/-- `resolve_tenant`. -/
def resolveTenant (link : Link) (store : Store) (raw : Raw) : Answer (Option (TenantId × KeyId)) :=
  if !link.connects then .refuses storeUnavailable
  else if link.answers then .passes (store.resolveKey (hashKey sha256) raw)
  else if link.reconnects && link.answersAgain then
    .passes (store.resolveKey (hashKey sha256) raw)
  else .refuses storeUnavailable

/-- `enforce_tls` refuses. -/
def plaintext (env : Env) (secure : Bool) : Bool := !truthy env.brokerAllowPlaintext && !secure

/-- `require_tenant`. -/
def requireTenant (env : Env) (secure : Bool) (link : Link) (store : Store)
    (authorization : Header) : Answer (TenantId × KeyId) :=
  if plaintext env secure then .refuses tlsRequired
  else
    match bearer authorization with
    | none => .refuses missingBearer
    | some raw =>
        match resolveTenant sha256 link store raw with
        | .passes (some tenant) => .passes tenant
        | .passes none => .refuses invalidTenantKey
        | .refuses r => .refuses r
        | .raises => .raises

/-! ## The owner -/

/-- `hmac.compare_digest` of two strings; `none` is its `TypeError`. -/
def compareDigest (a b : List Char) : Option Bool :=
  if a.all isAscii ∧ b.all isAscii then some (decide (a = b)) else none

/-- `any` of the comparisons with the keys, up to the first that is true. -/
def anyEqual (presented : List Char) : List (List Char) → Option Bool
  | [] => some false
  | k :: keys =>
      match compareDigest presented k with
      | none => none
      | some true => some true
      | some false => anyEqual presented keys

/-- What `require_owner` compares. -/
def presentedOwner (authorization xApiKey : Header) : List Char :=
  ((nonEmpty (strip isSpace (xApiKey.getD []))).or (bearer authorization)).getD []

/-- `require_owner`. -/
def requireOwner (env : Env) (secure : Bool) (authorization xApiKey : Header) : Answer Unit :=
  if plaintext env secure then .refuses tlsRequired
  else if adminKeys env = [] then .refuses adminClosed
  else
    match anyEqual (presentedOwner authorization xApiKey) (adminKeys env) with
    | none => .raises
    | some true => .passes ()
    | some false => .refuses ownerRequired

/-! ## The agent -/

/-- `PUBLIC_ROUTES`. -/
def publicRoutes : List (String × String) :=
  [("GET", "/healthz"), ("GET", "/readyz"), ("GET", "/metrics")]

structure AgentAuthPolicy where
  key : List Char
  allowOpen : Bool

/-- `authorize`; only ASCII letters are letters of `GET` in upper case. -/
def AgentAuthPolicy.authorize (policy : AgentAuthPolicy) (method path : String)
    (provided : List Char) : Option Refusal :=
  if (method.toUpper, path) ∈ publicRoutes then none
  else if policy.key = [] then none
  else if provided = [] then some agentMissing
  else if Utf8.encode provided ≠ Utf8.encode policy.key then some agentWrong
  else none

/-- The handler's use of it: an absent header is empty. -/
def agentGate (policy : AgentAuthPolicy) (method path : String) (xAgentKey : Header) : Answer Unit :=
  match policy.authorize method path (xAgentKey.getD []) with
  | none => .passes ()
  | some refusal => .refuses refusal

/-! ## What the gates owe -/

/-- A request is let through exactly if it is admitted, and else it is refused in one of
the ways there are. -/
structure Answer.Exact {α : Type} (answer : Answer α) (refusals : List Refusal)
    (admitted : Prop) : Prop where
  answered : answer.Admits ∨ ∃ r ∈ refusals, answer = .refuses r
  admits_iff : answer.Admits ↔ admitted

/-- A configuration with keys for every gate, all of them ASCII. -/
structure Deployment where
  env : Env
  agent : AgentAuthPolicy
  keyed : loadKeys env ≠ []
  owned : adminKeys env ≠ []
  keyed_ascii : ∀ k ∈ loadKeys env, k.all isAscii
  owned_ascii : ∀ k ∈ adminKeys env, k.all isAscii
  agent_keyed : agent.key ≠ []
  agent_ascii : agent.key.all isAscii

/-- The tables, with the key that each row was issued for. -/
structure KeyStore where
  store : Store
  raw : KeyId → Raw
  hashed : ∀ r ∈ store.keys, r.keyHash = hashKey sha256 (raw r.id)

/-- The row is active, and so is its tenant. -/
def KeyStore.Active {sha256} (s : KeyStore sha256) (r : KeyRow) : Prop :=
  r.status = .active ∧ (s.store.tenants r.tenantId).any fun tenant => tenant.status = .active

/-- An active key of an active tenant. -/
def KeyStore.IsKey {sha256} (s : KeyStore sha256) (raw : Raw) : Prop :=
  ∃ r ∈ s.store.keys, s.raw r.id = raw ∧ s.Active r

/-- The three headers of a request, with the agent's method and path. -/
structure Request where
  authorization : Header
  xApiKey : Header
  xAgentKey : Header
  method : String
  path : String

section

variable {sha256} (d : Deployment) (s : KeyStore sha256) (link : Link) (req : Request)

/-- The owner's gate, over TLS. -/
abbrev ownerAnswer : Answer Unit := requireOwner d.env true req.authorization req.xApiKey

/-- Every gate is exact, and a tenant's key is an owner's only if it is configured as one. -/
structure Sound : Prop where
  apiKey : (requireApiKey sha256 d.env req.xApiKey).Exact [invalidApiKey]
    (∃ k ∈ loadKeys d.env, req.xApiKey = some k)
  owner : (ownerAnswer d req).Exact [ownerRequired]
    (presentedOwner req.authorization req.xApiKey ∈ adminKeys d.env)
  tenant : (requireTenant sha256 d.env true link s.store req.authorization).Exact
    [missingBearer, invalidTenantKey] (∃ raw ∈ bearer req.authorization, s.IsKey raw)
  agent : (agentGate d.agent req.method req.path req.xAgentKey).Exact [agentMissing, agentWrong]
    ((req.method.toUpper, req.path) ∈ publicRoutes ∨ req.xAgentKey = some d.agent.key)
  separate : ∀ raw, s.IsKey raw → presentedOwner req.authorization req.xApiKey = raw →
    (ownerAnswer d req).Admits → raw ∈ adminKeys d.env

/-- What is compared with the owner's keys is ASCII, and no other key has the digest of
what is presented to the other two. -/
structure Comparable : Prop where
  ascii : (presentedOwner req.authorization req.xApiKey).all isAscii
  apiKey : ∀ x ∈ req.xApiKey, x ≠ [] → ∀ k ∈ loadKeys d.env, hash sha256 x = hash sha256 k →
    x ∈ loadKeys d.env
  tenant : ∀ raw ∈ bearer req.authorization, ∀ r ∈ s.store.keys, s.Active r →
    hashKey sha256 raw = hashKey sha256 (s.raw r.id) → s.IsKey raw

end

/-! ### The parts of a credential -/

theorem keysOf_ne_nil {text k : List Char} (h : k ∈ keysOf text) : k ≠ [] := by
  simpa using (List.mem_filter.mp h).2

theorem loadKeys_ne_nil {env : Env} {k : List Char} (h : k ∈ loadKeys env) : k ≠ [] := by
  rcases List.mem_append.mp h with h | h
  · exact keysOf_ne_nil h
  · have hk := of_decide_eq_true (List.mem_filter.mp h).2
    exact hk.1

theorem nonEmpty_eq_some {s t : List Char} : nonEmpty s = some t ↔ s = t ∧ t ≠ [] := by
  rw [nonEmpty]
  split_ifs with h
  · simp [h]
  · constructor
    · rintro ⟨⟩
      exact ⟨rfl, h⟩
    · rintro ⟨rfl, -⟩
      rfl

theorem bearer_ne_nil {authorization : Header} {raw : Raw} (h : bearer authorization = some raw) :
    raw ≠ [] := by
  rw [bearer] at h
  split at h
  · split_ifs at h
    exact (nonEmpty_eq_some.mp h).2
  · cases h

/-! ### The four gates -/

section

variable {sha256}

theorem valid_iff {env : Env} {presented : List Char} :
    valid sha256 env presented = true ↔
      ∃ k ∈ loadKeys env, hash sha256 presented = hash sha256 k := by
  simp [valid]

theorem requireApiKey_exact_iff (d : Deployment) (xApiKey : Header) :
    (requireApiKey sha256 d.env xApiKey).Exact [invalidApiKey]
        (∃ k ∈ loadKeys d.env, xApiKey = some k) ↔
      ∀ x ∈ xApiKey, x ≠ [] → ∀ k ∈ loadKeys d.env, hash sha256 x = hash sha256 k →
        x ∈ loadKeys d.env := by
  have hadmits : (requireApiKey sha256 d.env xApiKey).Admits ↔
      ∃ x ∈ xApiKey, x ≠ [] ∧ ∃ k ∈ loadKeys d.env, hash sha256 x = hash sha256 k := by
    rw [requireApiKey, if_neg d.keyed]
    cases hx : xApiKey.bind nonEmpty with
    | none =>
      refine iff_of_false (by rintro ⟨_, ⟨⟩⟩) ?_
      rintro ⟨x, rfl, hne, -⟩
      have hsome : nonEmpty x = some x := nonEmpty_eq_some.mpr ⟨rfl, hne⟩
      rw [Option.bind_some, hsome] at hx
      cases hx
    | some presented =>
      obtain ⟨x, rfl, hpresented⟩ := Option.bind_eq_some_iff.mp hx
      obtain ⟨rfl, hne⟩ := nonEmpty_eq_some.mp hpresented
      dsimp only
      by_cases hv : valid sha256 d.env x = true
      · rw [if_pos hv]
        exact iff_of_true ⟨(), rfl⟩ ⟨x, rfl, hne, valid_iff.mp hv⟩
      · rw [if_neg hv]
        refine iff_of_false (by rintro ⟨_, ⟨⟩⟩) ?_
        rintro ⟨_, ⟨⟩, -, hmatch⟩
        exact hv (valid_iff.mpr hmatch)
  have hanswered : (requireApiKey sha256 d.env xApiKey).Admits ∨
      ∃ r ∈ [invalidApiKey], requireApiKey sha256 d.env xApiKey = .refuses r := by
    rw [requireApiKey, if_neg d.keyed]
    split
    · exact .inr ⟨_, List.mem_singleton_self _, rfl⟩
    · split_ifs
      · exact .inl ⟨(), rfl⟩
      · exact .inr ⟨_, List.mem_singleton_self _, rfl⟩
  constructor
  · intro h x hx hne k hk hhash
    obtain ⟨k', hk', heq⟩ := h.admits_iff.mp (hadmits.mpr ⟨x, hx, hne, k, hk, hhash⟩)
    rw [hx] at heq
    cases heq
    exact hk'
  · intro h
    refine ⟨hanswered, hadmits.trans ⟨?_, ?_⟩⟩
    · rintro ⟨x, hx, hne, k, hk, hhash⟩
      exact ⟨x, h x hx hne k hk hhash, hx⟩
    · rintro ⟨k, hk, rfl⟩
      exact ⟨k, rfl, loadKeys_ne_nil hk, k, hk, rfl⟩

/-- ASCII texts are compared, up to the first that is equal. -/
theorem anyEqual_of_ascii {presented : List Char} {keys : List (List Char)}
    (h : presented.all isAscii = true) (hkeys : ∀ k ∈ keys, k.all isAscii = true) :
    anyEqual presented keys = some (decide (presented ∈ keys)) := by
  induction keys with
  | nil => rfl
  | cons k keys ih =>
    have hk : compareDigest presented k = some (decide (presented = k)) :=
      if_pos ⟨h, hkeys k List.mem_cons_self⟩
    rw [anyEqual, hk]
    by_cases heq : presented = k
    · simp [heq]
    · simp [heq, ih fun k' hk' => hkeys k' (List.mem_cons_of_mem _ hk')]

/-- Another text falls over the first key. -/
theorem anyEqual_of_not_ascii {presented : List Char} {keys : List (List Char)}
    (h : ¬ presented.all isAscii = true) (hkeys : keys ≠ []) : anyEqual presented keys = none := by
  obtain ⟨k, keys, rfl⟩ := List.exists_cons_of_ne_nil hkeys
  have hk : compareDigest presented k = none := if_neg fun hboth => h hboth.1
  rw [anyEqual, hk]

theorem plaintext_secure (env : Env) : plaintext env true = false := by
  simp [plaintext]

theorem requireOwner_exact_iff (d : Deployment) (req : Request) :
    (ownerAnswer d req).Exact [ownerRequired]
        (presentedOwner req.authorization req.xApiKey ∈ adminKeys d.env) ↔
      (presentedOwner req.authorization req.xApiKey).all isAscii = true := by
  rw [ownerAnswer, requireOwner, plaintext_secure, if_neg Bool.false_ne_true, if_neg d.owned]
  by_cases h : (presentedOwner req.authorization req.xApiKey).all isAscii = true
  · rw [anyEqual_of_ascii h d.owned_ascii]
    refine iff_of_true ?_ h
    by_cases hmem : presentedOwner req.authorization req.xApiKey ∈ adminKeys d.env
    · rw [decide_eq_true hmem]
      exact ⟨.inl ⟨(), rfl⟩, iff_of_true ⟨(), rfl⟩ hmem⟩
    · rw [decide_eq_false hmem]
      exact ⟨.inr ⟨_, List.mem_singleton_self _, rfl⟩, iff_of_false (by rintro ⟨_, ⟨⟩⟩) hmem⟩
  · rw [anyEqual_of_not_ascii h d.owned]
    refine iff_of_false ?_ h
    intro hexact
    rcases hexact.answered with ⟨_, ⟨⟩⟩ | ⟨_, -, ⟨⟩⟩

theorem resolveTenant_of_reachable {link : Link} (h : link.Reachable) (store : Store) (raw : Raw) :
    resolveTenant sha256 link store raw = .passes (store.resolveKey (hashKey sha256) raw) := by
  obtain ⟨hconnects, hanswers⟩ := h
  rw [resolveTenant, hconnects]
  rcases hanswers with hanswers | ⟨hre, hagain⟩
  · simp [hanswers]
  · simp [hre, hagain]

/-- A lookup finds somebody exactly if the digest is that of an active key. -/
theorem isSome_resolveKey_iff (s : KeyStore sha256) {raw : Raw} (h : raw ≠ []) :
    (s.store.resolveKey (hashKey sha256) raw).isSome = true ↔
      ∃ r ∈ s.store.keys, s.Active r ∧ hashKey sha256 raw = hashKey sha256 (s.raw r.id) := by
  rw [Store.resolveKey, if_neg h, Option.isSome_map, List.find?_isSome]
  constructor
  · rintro ⟨r, hr, hfound⟩
    obtain ⟨hhash, hactive⟩ := of_decide_eq_true hfound
    exact ⟨r, hr, hactive, hhash.symm.trans (s.hashed r hr)⟩
  · rintro ⟨r, hr, hactive, hhash⟩
    exact ⟨r, hr, decide_eq_true ⟨(s.hashed r hr).trans hhash.symm, hactive⟩⟩

theorem requireTenant_exact_iff (d : Deployment) (s : KeyStore sha256) {link : Link}
    (hlink : link.Reachable) (authorization : Header) :
    (requireTenant sha256 d.env true link s.store authorization).Exact
        [missingBearer, invalidTenantKey] (∃ raw ∈ bearer authorization, s.IsKey raw) ↔
      ∀ raw ∈ bearer authorization, ∀ r ∈ s.store.keys, s.Active r →
        hashKey sha256 raw = hashKey sha256 (s.raw r.id) → s.IsKey raw := by
  rw [requireTenant, plaintext_secure, if_neg Bool.false_ne_true]
  cases hraw : bearer authorization with
  | none =>
    refine iff_of_true ⟨.inr ⟨missingBearer, by simp, rfl⟩, ?_⟩ (by simp)
    exact iff_of_false (by rintro ⟨_, ⟨⟩⟩) (by simp)
  | some raw =>
    have hfound := isSome_resolveKey_iff s (bearer_ne_nil hraw)
    dsimp only
    rw [resolveTenant_of_reachable hlink]
    simp only [Option.mem_def, Option.some.injEq, exists_eq_left', forall_eq']
    cases hres : s.store.resolveKey (hashKey sha256) raw with
    | none =>
      rw [hres] at hfound
      have hnone := mt hfound.mpr (by simp)
      refine iff_of_true ⟨.inr ⟨invalidTenantKey, by simp, rfl⟩, ?_⟩ ?_
      · refine iff_of_false (by rintro ⟨_, ⟨⟩⟩) ?_
        rintro ⟨r, hr, rfl, hactive⟩
        exact hnone ⟨r, hr, hactive, rfl⟩
      · intro r hr hactive hhash
        exact absurd ⟨r, hr, hactive, hhash⟩ hnone
    | some tenant =>
      rw [hres] at hfound
      obtain ⟨r, hr, hactive, hhash⟩ := hfound.mp rfl
      constructor
      · intro hexact _ _ _ _
        exact hexact.admits_iff.mp ⟨tenant, rfl⟩
      · intro h
        exact ⟨.inl ⟨tenant, rfl⟩, iff_of_true ⟨tenant, rfl⟩ (h r hr hactive hhash)⟩

theorem agentGate_exact (d : Deployment) (req : Request) :
    (agentGate d.agent req.method req.path req.xAgentKey).Exact [agentMissing, agentWrong]
      ((req.method.toUpper, req.path) ∈ publicRoutes ∨ req.xAgentKey = some d.agent.key) := by
  rw [agentGate, AgentAuthPolicy.authorize]
  by_cases hpublic : (req.method.toUpper, req.path) ∈ publicRoutes
  · rw [if_pos hpublic]
    exact ⟨.inl ⟨(), rfl⟩, iff_of_true ⟨(), rfl⟩ (.inl hpublic)⟩
  · rw [if_neg hpublic, if_neg d.agent_keyed]
    by_cases hempty : req.xAgentKey.getD [] = []
    · rw [if_pos hempty]
      refine ⟨.inr ⟨agentMissing, by simp, rfl⟩, iff_of_false (by rintro ⟨_, ⟨⟩⟩) ?_⟩
      rintro (h | h)
      · exact hpublic h
      · rw [h] at hempty
        exact d.agent_keyed hempty
    · rw [if_neg hempty]
      by_cases hkey : req.xAgentKey = some d.agent.key
      · rw [hkey, Option.getD_some, if_neg (not_not.mpr rfl)]
        exact ⟨.inl ⟨(), rfl⟩, iff_of_true ⟨(), rfl⟩ (.inr rfl)⟩
      · have hne : Utf8.encode (req.xAgentKey.getD []) ≠ Utf8.encode d.agent.key := by
          intro heq
          cases hx : req.xAgentKey with
          | none => exact hempty (by rw [hx]; rfl)
          | some provided =>
            rw [hx, Option.getD_some] at heq
            exact hkey (hx.trans (congrArg some (Utf8.encode_injective heq)))
        rw [if_pos hne]
        refine ⟨.inr ⟨agentWrong, by simp, rfl⟩, iff_of_false (by rintro ⟨_, ⟨⟩⟩) ?_⟩
        exact not_or.mpr ⟨hpublic, hkey⟩

/-- The gates are sound exactly if what they compare can be compared. -/
theorem gates_sound_iff (d : Deployment) (s : KeyStore sha256) {link : Link} (hlink : link.Reachable)
    (req : Request) : Sound d s link req ↔ Comparable d s req := by
  constructor
  · intro h
    exact {
      ascii := (requireOwner_exact_iff d req).mp h.owner
      apiKey := (requireApiKey_exact_iff d req.xApiKey).mp h.apiKey
      tenant := (requireTenant_exact_iff d s hlink req.authorization).mp h.tenant }
  · intro h
    have howner := (requireOwner_exact_iff d req).mpr h.ascii
    exact {
      apiKey := (requireApiKey_exact_iff d req.xApiKey).mpr h.apiKey
      owner := howner
      tenant := (requireTenant_exact_iff d s hlink req.authorization).mpr h.tenant
      agent := agentGate_exact d req
      separate := by
        rintro _ - rfl hadmits
        exact howner.admits_iff.mp hadmits }

end

/-! ### One key for everything -/

/-- SHA-256 of `k1`, and nothing else. -/
def digestOf (bytes : List UInt8) : List UInt8 :=
  if bytes = Utf8.encode ['k', '1'] then
    [0x6a, 0xb9, 0xf1, 0xeb, 0x8f, 0x7d, 0x33, 0x88, 0xf4, 0xf9, 0xd5, 0x86, 0xf6, 0x6e,
      0x99, 0xfd, 0x54, 0x08, 0x0d, 0xf2, 0xc4, 0x46, 0xf0, 0xe5, 0x86, 0x68, 0xb0, 0x9c,
      0x08, 0xa1, 0x6d, 0xd0]
  else []

def oneKey : Deployment where
  env := ⟨some ['k', '1'], none, none, none, none⟩
  agent := ⟨['k', '1'], false⟩
  keyed := by decide
  owned := by decide
  keyed_ascii := by decide
  owned_ascii := by decide
  agent_keyed := by decide
  agent_ascii := by decide

def noTenants : KeyStore digestOf where
  store := ⟨fun _ => none, [], fun _ => none, []⟩
  raw _ := []
  hashed _ hr := absurd hr List.not_mem_nil

/-- The key in the header of the console, for the agent too. -/
theorem oneKey_sound : Sound oneKey noTenants ⟨true, true, true, true⟩
    ⟨none, some ['k', '1'], some ['k', '1'], "POST", "/jobs"⟩ :=
  (gates_sound_iff oneKey noTenants ⟨rfl, .inl rfl⟩ _).mpr
    { ascii := by decide
      apiKey := by
        rintro _ ⟨⟩ - k - -
        decide
      tenant := by rintro _ ⟨⟩ }

/-- One character that is not ASCII. -/
theorem accent_raises : ¬ Sound oneKey noTenants ⟨true, true, true, true⟩
    ⟨none, some ['\u00e9'], none, "GET", "/jobs"⟩ := by
  intro h
  have hraises : ownerAnswer oneKey ⟨none, some ['\u00e9'], none, "GET", "/jobs"⟩ = .raises := by
    decide
  rcases h.owner.answered with ⟨_, hpasses⟩ | ⟨_, -, hrefuses⟩
  · exact nomatch hraises.symm.trans hpasses
  · exact nomatch hraises.symm.trans hrefuses

end MlopsLite.Gateway.Credentials
