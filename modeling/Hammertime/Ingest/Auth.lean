import Hammertime.Addressing
import Hammertime.Ingest.RateLimit

/-!
# Agent authentication and the brute-force budgets

`require_agent` of `hammertime.ingest.auth.middleware`: a request is authenticated by its `X-Agent-Id`
and its bearer token against the registry, and every failure is charged to two rate limiters, first to
one keyed by the source address and then to one keyed by a slot of the presented identity. The slots
are a fixed table under a keyed hash, with one more for an identity that is absent or too long, so
that no choice of identities makes the limiter evict a slot.

`brute_force_bound` is the budget of a slot over any interval. The digests, the parser of addresses
and their texts are parameters; nothing is assumed of them.
-/

namespace Hammertime.Ingest

open Lib

/-! ### The registry -/

/-- The exceptions of `hammertime.ingest.auth`. -/
inductive AgentAuthError where
  | missingCredential
  | oversizedCredential
  | unknownAgent
  | invalidCredential
  | agentDisabled
deriving DecidableEq

/-- `AgentRecord`. A previous hash comes with the time at which it expires. -/
structure AgentRecord where
  agentId : String
  tokenHash : List UInt8
  previousTokenHash : Option (List UInt8 × ℚ)
  enabled : Bool
  rateLimitRps : Option ℤ

/-- `AgentRegistry`. -/
abbrev AgentRegistry := Dict String AgentRecord

/-- A scope id that an IPv6 address can have: `_split_scope_id` refuses an empty one and a second `%`,
and an address holds no `/`. -/
@[ext]
structure ScopeId where
  text : String
  nonEmpty : text ≠ ""
  free : '%' ∉ text.toList ∧ '/' ∉ text.toList

/-- `IPv4Address` or `IPv6Address`. An IPv6 address may have a scope id. -/
@[ext]
structure IpAddress where
  address : Address
  scopeId : Option ScopeId
  unscoped : address.family = .ipv4 → scopeId = none

/-- An address without a scope id. -/
def IpAddress.plain (address : Address) : IpAddress := ⟨address, none, fun _ => rfl⟩

/-- What is used of `hashlib`, `hmac` and `ipaddress`. -/
structure Primitives where
  /-- `bytes.fromhex(tokens.hash_token(token, key=...))`, under the registry's key. -/
  hashToken : String → List UInt8
  /-- `int.from_bytes(digest[:8], "big")` of the HMAC of an identity, under the salt. -/
  slotDigest : String → ℕ
  /-- `ipaddress.ip_address`, or its `ValueError`. -/
  ipAddress : String → Option IpAddress
  /-- `str(address)`. -/
  addressText : IpAddress → String

variable (primitives : Primitives)

/-- `AgentRegistry.authenticate`. -/
def AgentRegistry.authenticate (registry : AgentRegistry) (now : ℤ) (agentId token : String) :
    Except AgentAuthError AgentRecord :=
  match registry.get? agentId with
  | none => .error .unknownAgent
  | some record =>
    let presentedHash := primitives.hashToken token
    let currentMatches : Bool := presentedHash = record.tokenHash
    let previousMatches : Bool :=
      match record.previousTokenHash with
      | none => false
      | some (hash, expiresAt) => presentedHash = hash && (now : ℚ) < expiresAt
    if ¬ (currentMatches || previousMatches) then .error .invalidCredential
    else if ¬ record.enabled then .error .agentDisabled
    else .ok record

/-! ### Requests -/

/-- What is read of a request, and the clock as each of the three parts reads it. -/
structure Request where
  /-- The `X-Agent-Id` header. -/
  agentId : Option String
  authorization : Option String
  /-- The lines of `X-Forwarded-For`. -/
  forwardedFor : List String
  /-- The host of the socket's peer. -/
  client : Option String
  registryNow : ℤ
  sourceNow : ℤ
  agentNow : ℤ

/-- `_MAX_AGENT_ID_LENGTH`. -/
def maxAgentIdLength : ℕ := 128

/-- `_MAX_TOKEN_LENGTH`. -/
def maxTokenLength : ℕ := 512

/-- `_BEARER_PREFIX`. -/
def bearerPrefix : List Char := "Bearer ".toList

/-- `_extract_bearer_token`. -/
def extractBearerToken (request : Request) : Except AgentAuthError String :=
  match request.authorization with
  | none => .error .missingCredential
  | some header =>
    if ¬ bearerPrefix.isPrefixOf header.toList then .error .missingCredential
    else
      let token := header.toList.drop bearerPrefix.length
      if token = [] then .error .missingCredential
      else if maxTokenLength < token.length then .error .oversizedCredential
      else .ok (String.ofList token)

/-- `_attempted_agent_id`. -/
def attemptedAgentId (request : Request) : Option String :=
  request.agentId.filter fun agentId => agentId ≠ ""

/-- `authenticate_request`. -/
def authenticateRequest (registry : AgentRegistry) (request : Request) :
    Except AgentAuthError String := do
  match attemptedAgentId request with
  | none => .error .missingCredential
  | some agentId =>
    if maxAgentIdLength < agentId.length then .error .oversizedCredential
    else
      let token ← extractBearerToken request
      let record ← registry.authenticate primitives request.registryNow agentId token
      return record.agentId

/-! ### The keys of the two budgets -/

/-- `_NO_AGENT_ID_KEY`. -/
def noAgentIdKey : String := "-"

/-- The key of a slot. -/
def agentSlotKey (slot : ℕ) : String := "agent-slot:" ++ toString slot

/-- `_agent_bucket_key`. -/
def agentBucketKey (slotCount : ℕ) (attemptedAgentId : Option String) : String :=
  match attemptedAgentId with
  | none => noAgentIdKey
  | some agentId =>
    if maxAgentIdLength < agentId.length then noAgentIdKey
    else agentSlotKey (primitives.slotDigest agentId % slotCount)

/-- The whitespace of `str.strip`, as far as a header can hold it. -/
def isSpace (c : Char) : Bool :=
  (9 ≤ c.toNat ∧ c.toNat ≤ 13) ∨ (28 ≤ c.toNat ∧ c.toNat ≤ 32) ∨ c.toNat = 133 ∨ c.toNat = 160

/-- `strip`. -/
def strip (text : List Char) : List Char :=
  ((text.dropWhile isSpace).reverse.dropWhile isSpace).reverse

/-- `_resolve_source_address`. -/
def resolveSourceAddress (trustedProxyHops : ℕ) (request : Request) : String :=
  let header := (", ".intercalate request.forwardedFor).toList
  let entries := ((header.splitOn ',').map strip).filter (· ≠ [])
  -- The entry so many positions from the right.
  let candidate :=
    if trustedProxyHops = 0 then none else (entries.reverse[trustedProxyHops - 1]?).map String.ofList
  match candidate.filter fun text => (primitives.ipAddress text).isSome with
  | some text => text
  | none => request.client.getD "unknown"

/-- `IPv6Network((address, 64), strict=False).network_address`. Only an address with host bits is
replaced by the masked one, so that one without them keeps its scope id. -/
def IpAddress.network (ip : IpAddress) : IpAddress :=
  if ip.address.value % 2 ^ 64 = 0 then ip
  else .plain ⟨.ipv6, ip.address.value / 2 ^ 64 * 2 ^ 64 % 2 ^ 128, Nat.mod_lt _ (by decide)⟩

/-- `_source_bucket_key`: an IPv4 address whole, also one mapped into IPv6, and the network of another
IPv6 address. -/
def sourceBucketKey (addressText : String) : String :=
  match primitives.ipAddress addressText with
  | none => addressText
  | some ip =>
    match ip.address.family with
    | .ipv4 => primitives.addressText ip ++ "/32"
    | .ipv6 =>
      if ip.address.value / 2 ^ 32 = 0xffff then
        primitives.addressText
          (.plain ⟨.ipv4, ip.address.value % 2 ^ 32, Nat.mod_lt _ (by decide)⟩) ++ "/32"
      else primitives.addressText ip.network ++ "/64"

/-! ### The dependency -/

/-- The settings of `require_agent`, as `load_settings` and its own check admit them. -/
structure AuthSettings where
  authFailureRatePerMin : ℚ
  authFailureBurst : ℤ
  authFailureAgentRatePerMin : ℚ
  authFailureAgentBurst : ℤ
  trustedProxyHops : ℕ
  agentSlotCount : ℕ
  authFailureRatePerMin_pos : 0 < authFailureRatePerMin
  authFailureBurst_pos : 0 < authFailureBurst
  authFailureAgentRatePerMin_pos : 0 < authFailureAgentRatePerMin
  authFailureAgentBurst_pos : 0 < authFailureAgentBurst
  agentSlotCount_pos : 0 < agentSlotCount

/-- The answer of the dependency. -/
inductive Answer where
  | authenticated (agentId : String)
  /-- 401, the same for every failure but one. -/
  | unauthorized
  /-- 403. -/
  | disabled
  /-- 429 with its `Retry-After`. -/
  | throttled (retryAfterSeconds : ℤ)
  /-- 500, for an exception that nothing handles. -/
  | internalError
deriving DecidableEq

/-- `throttled_response`: at least one second. -/
def throttledResponse (retryAfter : ℚ) : Answer := .throttled (max 1 ⌈retryAfter⌉)

/-- The two limiters of failures. -/
structure Limiters where
  source : RateLimiter
  agent : RateLimiter

variable (settings : AuthSettings) (registry : AgentRegistry)

/-- The answer to a failure that both budgets admit. -/
def failureResponse : AgentAuthError → Answer
  | .agentDisabled => .disabled
  | _ => .unauthorized

/-- `_dependency`. -/
def dependency (limiters : Limiters) (request : Request) : Limiters × Answer :=
  match authenticateRequest primitives registry request with
  | .ok agentId => (limiters, .authenticated agentId)
  | .error e =>
    let sourceKey := sourceBucketKey primitives
      (resolveSourceAddress primitives settings.trustedProxyHops request)
    let agentKey := agentBucketKey primitives settings.agentSlotCount (attemptedAgentId request)
    let (source, charged) := limiters.source.check request.sourceNow sourceKey
      (settings.authFailureRatePerMin / 60) 1 (some settings.authFailureBurst)
    match charged with
    | .error (.exceeded retryAfter) => ({ limiters with source }, throttledResponse retryAfter)
    | .error (.valueError _) => ({ limiters with source }, .internalError)
    | .ok () =>
      let (agent, charged) := limiters.agent.check request.agentNow agentKey
        (settings.authFailureAgentRatePerMin / 60) 1 (some settings.authFailureAgentBurst)
      match charged with
      | .error (.exceeded retryAfter) => (⟨source, agent⟩, throttledResponse retryAfter)
      | .error (.valueError _) => (⟨source, agent⟩, .internalError)
      | .ok () => (⟨source, agent⟩, failureResponse e)

/-- The source budget refuses the request. -/
def sourceRefuses (limiters : Limiters) (request : Request) : Prop :=
  (limiters.source.check request.sourceNow
    (sourceBucketKey primitives (resolveSourceAddress primitives settings.trustedProxyHops request))
    (settings.authFailureRatePerMin / 60) 1 (some settings.authFailureBurst)).2 ≠ .ok ()

/-- A failing attempt at a slot that is answered with something other than 429. -/
def unthrottledFailure (slot : String) (request : Request) (answer : Answer) : Bool :=
  (match authenticateRequest primitives registry request with
    | .ok _ => false
    | .error _ => true) &&
  agentBucketKey primitives settings.agentSlotCount (attemptedAgentId request) = slot &&
  (match answer with
    | .throttled _ => false
    | _ => true)

/-! ### The budget of a slot -/

namespace AuthSettings

/-- The keys that `_agent_bucket_key` can give. -/
def agentKeys : Finset String :=
  insert noAgentIdKey ((Finset.range settings.agentSlotCount).image agentSlotKey)

theorem card_agentKeys_le : settings.agentKeys.card ≤ settings.agentSlotCount + 1 := by
  have himage : ((Finset.range settings.agentSlotCount).image agentSlotKey).card ≤
      settings.agentSlotCount := by
    have hle := Finset.card_image_le (s := Finset.range settings.agentSlotCount) (f := agentSlotKey)
    rwa [Finset.card_range] at hle
  have hinsert := Finset.card_insert_le noAgentIdKey
    ((Finset.range settings.agentSlotCount).image agentSlotKey)
  unfold agentKeys
  omega

theorem agentBucketKey_mem (attemptedAgentId : Option String) :
    agentBucketKey primitives settings.agentSlotCount attemptedAgentId ∈ settings.agentKeys := by
  have hslot : ∀ agentId, agentSlotKey (primitives.slotDigest agentId % settings.agentSlotCount) ∈
      settings.agentKeys := by
    intro agentId
    have hlt := Nat.mod_lt (primitives.slotDigest agentId) settings.agentSlotCount_pos
    exact Finset.mem_insert_of_mem (Finset.mem_image_of_mem _ (Finset.mem_range.mpr hlt))
  unfold agentBucketKey
  cases attemptedAgentId with
  | none => exact Finset.mem_insert_self _ _
  | some agentId =>
    dsimp only
    split_ifs
    · exact Finset.mem_insert_self _ _
    · exact hslot agentId

theorem one_le_burst : (1 : ℚ) ≤ settings.authFailureBurst := by
  exact_mod_cast settings.authFailureBurst_pos

theorem rate_pos : 0 < settings.authFailureRatePerMin / 60 := by
  have hpos := settings.authFailureRatePerMin_pos
  linarith

theorem one_le_agentBurst : (1 : ℚ) ≤ settings.authFailureAgentBurst := by
  exact_mod_cast settings.authFailureAgentBurst_pos

theorem agentRate_pos : 0 < settings.authFailureAgentRatePerMin / 60 := by
  have hpos := settings.authFailureAgentRatePerMin_pos
  linarith

end AuthSettings

variable {primitives settings registry}

theorem dependency_of_ok {limiters : Limiters} {request : Request} {agentId : String}
    (h : authenticateRequest primitives registry request = .ok agentId) :
    dependency primitives settings registry limiters request =
      (limiters, .authenticated agentId) := by
  unfold dependency
  rw [h]

/-- A refusal by the source is a 429, and leaves the slots alone. -/
theorem dependency_of_sourceRefuses {limiters : Limiters} {request : Request} {e : AgentAuthError}
    (h : authenticateRequest primitives registry request = .error e)
    (hsource : sourceRefuses primitives settings limiters request) :
    (dependency primitives settings registry limiters request).1.agent = limiters.agent ∧
      ∃ seconds, (dependency primitives settings registry limiters request).2 =
        .throttled seconds := by
  have hvalue := limiters.source.check_ne_valueError request.sourceNow
    (sourceBucketKey primitives (resolveSourceAddress primitives settings.trustedProxyHops request))
    settings.rate_pos one_pos settings.one_le_burst
  unfold sourceRefuses at hsource
  unfold dependency
  rw [h]
  dsimp only
  split
  next => exact ⟨rfl, _, rfl⟩
  next text hcharged => exact absurd hcharged (hvalue text)
  next hcharged => exact absurd hcharged hsource

/-- What a failing request does to the slots, unless the source refuses it. -/
theorem dependency_of_error {limiters : Limiters} {request : Request} {e : AgentAuthError}
    (h : authenticateRequest primitives registry request = .error e)
    (hsource : ¬ sourceRefuses primitives settings limiters request) :
    let result := limiters.agent.check request.agentNow
      (agentBucketKey primitives settings.agentSlotCount (attemptedAgentId request))
      (settings.authFailureAgentRatePerMin / 60) 1 (some settings.authFailureAgentBurst)
    (dependency primitives settings registry limiters request).1.agent = result.1 ∧
      (result.2 ≠ .ok () →
        ∃ seconds, (dependency primitives settings registry limiters request).2 =
          .throttled seconds) := by
  intro result
  have hvalue := limiters.agent.check_ne_valueError request.agentNow
    (agentBucketKey primitives settings.agentSlotCount (attemptedAgentId request))
    settings.agentRate_pos one_pos settings.one_le_agentBurst
  unfold sourceRefuses at hsource
  rw [not_not] at hsource
  unfold dependency
  rw [h]
  dsimp only
  rw [hsource]
  dsimp only
  split
  next retryAfter _ => exact ⟨rfl, fun _ => ⟨_, rfl⟩⟩
  next text hcharged => exact absurd hcharged (hvalue text)
  next hcharged => exact ⟨rfl, fun hne => absurd hcharged hne⟩

/-- A step keeps the slots valid, and an unthrottled failure takes a token of its own slot. -/
theorem dependency_step (slot : String) {limiters : Limiters} {request : Request}
    (h : limiters.agent.Valid settings.agentKeys settings.authFailureAgentBurst request.agentNow) :
    (dependency primitives settings registry limiters request).1.agent.Valid settings.agentKeys
        settings.authFailureAgentBurst request.agentNow ∧
      (dependency primitives settings registry limiters request).1.agent.level slot
          (settings.authFailureAgentRatePerMin / 60) settings.authFailureAgentBurst
          request.agentNow +
        (if unthrottledFailure primitives settings registry slot request
            (dependency primitives settings registry limiters request).2 then 1 else 0) ≤
      limiters.agent.level slot (settings.authFailureAgentRatePerMin / 60)
        settings.authFailureAgentBurst request.agentNow := by
  cases hauth : authenticateRequest primitives registry request with
  | ok agentId =>
    have hnot : ∀ answer, unthrottledFailure primitives settings registry slot request answer =
        false := by
      intro answer
      simp only [unthrottledFailure, hauth, Bool.false_and]
    rw [dependency_of_ok hauth, hnot]
    exact ⟨h, by simp⟩
  | error e =>
    -- A 429 counts nothing.
    have hthrottled : ∀ seconds, unthrottledFailure primitives settings registry slot request
        (.throttled seconds) = false := by
      intro seconds
      simp only [unthrottledFailure, Bool.and_false]
    by_cases hsource : sourceRefuses primitives settings limiters request
    · obtain ⟨hagent, seconds, hanswer⟩ := dependency_of_sourceRefuses hauth hsource
      rw [hagent, hanswer, hthrottled]
      exact ⟨h, by simp⟩
    · obtain ⟨hagent, hrefused⟩ := dependency_of_error hauth hsource
      have hkey := settings.agentBucketKey_mem primitives (attemptedAgentId request)
      have hspec := h.check_spec hkey settings.agentRate_pos one_pos settings.one_le_agentBurst
      rw [hagent, hspec.level_eq zero_le_one]
      refine ⟨hspec.valid h hkey settings.agentRate_pos one_pos settings.one_le_agentBurst, ?_⟩
      by_cases hadmitted : (1 : ℚ) ≤ limiters.agent.level
          (agentBucketKey primitives settings.agentSlotCount (attemptedAgentId request))
          (settings.authFailureAgentRatePerMin / 60) settings.authFailureAgentBurst request.agentNow
      · by_cases hslot : agentBucketKey primitives settings.agentSlotCount
            (attemptedAgentId request) = slot
        · rw [if_pos ⟨hslot, hadmitted⟩]
          split_ifs <;> linarith
        · have hother : ∀ answer,
              unthrottledFailure primitives settings registry slot request answer = false := by
            intro answer
            simp only [unthrottledFailure, hslot, decide_false, Bool.and_false, Bool.false_and]
          rw [if_neg fun hand => hslot hand.1, hother]
          simp
      · obtain ⟨seconds, hanswer⟩ := hrefused fun hok => hadmitted (hspec.admitted.mp hok)
        rw [if_neg fun hand => hadmitted hand.2, hanswer, hthrottled]
        simp

variable (primitives settings registry) in
/-- The slots are metered. -/
theorem metered (slot : String) :
    TokenBucket.Metered (dependency primitives settings registry)
      (fun request => (request.agentNow : ℚ)) (unthrottledFailure primitives settings registry slot)
      settings.authFailureAgentBurst (settings.authFailureAgentRatePerMin / 60)
      (fun limiters t => limiters.agent.level slot (settings.authFailureAgentRatePerMin / 60)
        settings.authFailureAgentBurst t)
      (fun limiters t =>
        limiters.agent.Valid settings.agentKeys settings.authFailureAgentBurst t) := by
  have hrate := settings.agentRate_pos
  have hburst := settings.one_le_agentBurst
  exact
    { rate_nonneg := hrate.le
      nonneg := fun _ _ h => h.level_nonneg hrate.le (by linarith) slot
      le_capacity := fun _ t _ => RateLimiter.level_le_capacity slot t
      refills := fun _ _ _ _ htu => RateLimiter.level_refill hrate.le slot htu
      later := fun _ _ _ h htu => h.later htu
      valid_step := fun _ _ h => (dependency_step slot h).1
      charge := fun _ _ h => (dependency_step slot h).2 }

/-- Over any interval a slot answers no more failures with anything but 429 than its burst and what
refills, whatever else is presented. A success charges nothing, and a failure that the source budget
refuses leaves the slots as they are. -/
theorem brute_force_bound (primitives : Primitives) (settings : AuthSettings)
    (registry : AgentRegistry) (source : RateLimiter) (maxKeys : ℕ) (hmax : 0 < maxKeys)
    (hfits : settings.agentSlotCount + 1 ≤ maxKeys) (requests : List Request)
    (hsorted : (requests.map Request.agentNow).Pairwise (· ≤ ·)) :
    (∀ (slot : String) (start finish : ℚ), start ≤ finish →
      (TokenBucket.chargedWithin (fun request => (request.agentNow : ℚ))
          (unthrottledFailure primitives settings registry slot) start finish
          (answers (dependency primitives settings registry) ⟨source, .empty maxKeys hmax⟩ requests) :
        ℚ) ≤
      settings.authFailureAgentBurst +
        (finish - start) * settings.authFailureAgentRatePerMin / 60) ∧
    (∀ limiters request agentId, authenticateRequest primitives registry request = .ok agentId →
      dependency primitives settings registry limiters request =
        (limiters, .authenticated agentId)) ∧
    ∀ limiters request e, authenticateRequest primitives registry request = .error e →
      sourceRefuses primitives settings limiters request →
      (dependency primitives settings registry limiters request).1.agent = limiters.agent := by
  refine ⟨fun slot start finish hinterval => ?_, fun limiters request agentId h =>
    dependency_of_ok h, fun limiters request e h hsource => (dependency_of_sourceRefuses h hsource).1⟩
  have hvalid : ∀ t, (RateLimiter.empty maxKeys hmax).Valid settings.agentKeys
      settings.authFailureAgentBurst t :=
    RateLimiter.valid_empty hmax (settings.card_agentKeys_le.trans hfits)
  have htimes : (requests.map fun request => (request.agentNow : ℚ)).Pairwise (· ≤ ·) := by
    rw [List.pairwise_map] at hsorted ⊢
    exact hsorted.imp fun hle => by exact_mod_cast hle
  have hle := (metered primitives settings registry slot).chargedWithin_le hinterval
    (s := ⟨source, .empty maxKeys hmax⟩) hvalid requests htimes
  calc _ ≤ (settings.authFailureAgentBurst : ℚ) +
        (finish - start) * (settings.authFailureAgentRatePerMin / 60) := hle
    _ = _ := by ring

/-- The defaults of the service. -/
def defaultAuthSettings : AuthSettings :=
  ⟨30, 10, 60, 20, 0, 4096, by norm_num, by norm_num, by norm_num, by norm_num, by norm_num⟩

/-- The library, as far as requests of one host without an identity use it. -/
def localhostPrimitives : Primitives where
  hashToken _ := []
  slotDigest _ := 0
  ipAddress text :=
    if text = "127.0.0.1" then some (.plain ⟨.ipv4, 0x7f000001, by decide⟩) else none
  addressText _ := "127.0.0.1"

/-- A request of one host without an identity. -/
def anonymousRequest (now : ℤ) : Request := ⟨none, none, [], some "127.0.0.1", now, now, now⟩

/-- Within five seconds the shared slot answers at most 25 requests without an identity. -/
theorem brute_force_bound_anonymous :
    (TokenBucket.chargedWithin (fun request => (request.agentNow : ℚ))
        (unthrottledFailure localhostPrimitives defaultAuthSettings Dict.empty "-") 0 5
        (answers (dependency localhostPrimitives defaultAuthSettings Dict.empty)
          ⟨.empty 100000 (by decide), .empty 100000 (by decide)⟩
          [anonymousRequest 0, anonymousRequest 5]) : ℚ) ≤ (20 : ℤ) + (5 - 0) * 60 / 60 :=
  (brute_force_bound localhostPrimitives defaultAuthSettings Dict.empty
    (.empty 100000 (by decide)) 100000 (by decide) (by decide)
    [anonymousRequest 0, anonymousRequest 5] (by decide)).1 "-" 0 5 (by norm_num)

/-! ### What a failure reveals -/

/-- An `HTTPException`: the status, the `detail` of the body and the headers. -/
structure HttpException where
  status : ℕ
  detail : String
  headers : List (String × String)
deriving DecidableEq

/-- What the dependency raises, or none for a request that goes on. -/
def Answer.raised : Answer → Option HttpException
  | .authenticated _ => none
  | .unauthorized => some ⟨401, "invalid agent credentials", [("WWW-Authenticate", "Bearer")]⟩
  | .disabled => some ⟨403, "agent is disabled", []⟩
  | .throttled retryAfterSeconds =>
    some ⟨429, "too many failed authentication attempts",
      [("Retry-After", toString retryAfterSeconds), ("X-RateLimit-Scope", "auth-failures")]⟩
  | .internalError => some ⟨500, "Internal Server Error", []⟩

/-- The request fails, and not for a credential of a disabled agent. -/
def FailsPlainly (primitives : Primitives) (registry : AgentRegistry) (request : Request) : Prop :=
  ∃ e, authenticateRequest primitives registry request = .error e ∧ e ≠ .agentDisabled

/-- The request at another reading of the registry's clock. -/
def Request.at (request : Request) (registryNow : ℤ) : Request := { request with registryNow }

/-- The limiters after a list of requests, with what was answered to each. -/
def dependencies (primitives : Primitives) (settings : AuthSettings) (registry : AgentRegistry)
    (limiters : Limiters) (requests : List Request) : Limiters × List Answer :=
  (requests.foldl (fun limiters request =>
      (dependency primitives settings registry limiters request).1) limiters,
    (answers (dependency primitives settings registry) limiters requests).map Prod.snd)

variable {registry' : AgentRegistry} {hashToken' : String → List UInt8}

/-- A failure is charged and answered alike, whatever it failed for. -/
theorem dependency_uniform (settings : AuthSettings) {request : Request} {registryNow : ℤ}
    (h : FailsPlainly primitives registry request)
    (h' : FailsPlainly { primitives with hashToken := hashToken' } registry'
      (request.at registryNow)) (limiters : Limiters) :
    dependency { primitives with hashToken := hashToken' } settings registry' limiters
        (request.at registryNow) =
      dependency primitives settings registry limiters request := by
  have huniform : ∀ {e}, e ≠ AgentAuthError.agentDisabled → failureResponse e = .unauthorized := by
    intro e he
    cases e with
    | agentDisabled => exact absurd rfl he
    | missingCredential => rfl
    | oversizedCredential => rfl
    | unknownAgent => rfl
    | invalidCredential => rfl
  obtain ⟨e, hauth, hplain⟩ := h
  obtain ⟨e', hauth', hplain'⟩ := h'
  unfold dependency
  rw [hauth, hauth']
  dsimp only
  rw [huniform hplain, huniform hplain']
  -- The keys are of the request alone, and neither reads the registry's clock.
  rfl

/-- Every plain failure is a 401 or a 429. -/
theorem raised_of_failsPlainly (settings : AuthSettings) {request : Request}
    (h : FailsPlainly primitives registry request) (limiters : Limiters) :
    ∃ raised, (dependency primitives settings registry limiters request).2.raised = some raised ∧
      (raised.status = 401 ∨ raised.status = 429) := by
  obtain ⟨e, hauth, hplain⟩ := h
  have hvalue := limiters.source.check_ne_valueError request.sourceNow
    (sourceBucketKey primitives (resolveSourceAddress primitives settings.trustedProxyHops request))
    settings.rate_pos one_pos settings.one_le_burst
  have hvalue' := limiters.agent.check_ne_valueError request.agentNow
    (agentBucketKey primitives settings.agentSlotCount (attemptedAgentId request))
    settings.agentRate_pos one_pos settings.one_le_agentBurst
  unfold dependency
  rw [hauth]
  dsimp only
  split
  next => exact ⟨_, rfl, Or.inr rfl⟩
  next text hcharged => exact absurd hcharged (hvalue text)
  next =>
    split
    next => exact ⟨_, rfl, Or.inr rfl⟩
    next text hcharged => exact absurd hcharged (hvalue' text)
    next =>
      cases e with
      | agentDisabled => exact absurd rfl hplain
      | missingCredential => exact ⟨_, rfl, Or.inl rfl⟩
      | oversizedCredential => exact ⟨_, rfl, Or.inl rfl⟩
      | unknownAgent => exact ⟨_, rfl, Or.inl rfl⟩
      | invalidCredential => exact ⟨_, rfl, Or.inl rfl⟩

/-- Failures do not reveal the registry. Two registries, each with its own key and clock, answer the
same requests alike and leave the same limiters, as long as every request fails under both and none
presents the credential of a disabled agent. -/
theorem failures_reveal_nothing (primitives : Primitives) (hashToken' : String → List UInt8)
    (settings : AuthSettings) (registry registry' : AgentRegistry) (limiters limiters' : Limiters)
    (hlimiters : limiters' = limiters) (requests : List (Request × ℤ))
    (h : ∀ request ∈ requests, FailsPlainly primitives registry request.1)
    (h' : ∀ request ∈ requests, FailsPlainly { primitives with hashToken := hashToken' } registry'
      (request.1.at request.2)) :
    let run := dependencies primitives settings registry limiters (requests.map Prod.fst)
    let run' := dependencies { primitives with hashToken := hashToken' } settings registry' limiters'
      (requests.map fun request => request.1.at request.2)
    run'.1 = run.1 ∧ run'.2.map Answer.raised = run.2.map Answer.raised ∧
      ∀ answer ∈ run.2, ∃ raised, answer.raised = some raised ∧
        (raised.status = 401 ∨ raised.status = 429) := by
  subst hlimiters
  dsimp only
  induction requests generalizing limiters' with
  | nil => exact ⟨rfl, rfl, fun answer hanswer => by cases hanswer⟩
  | cons request rest ih =>
    have hstep := dependency_uniform settings (h request List.mem_cons_self)
      (h' request List.mem_cons_self) limiters'
    have hraised := raised_of_failsPlainly settings (h request List.mem_cons_self) limiters'
    obtain ⟨hfinal, hanswers, hplain⟩ := ih
      (dependency primitives settings registry limiters' request.1).1
      (fun request' hmem => h request' (List.mem_cons_of_mem _ hmem))
      (fun request' hmem => h' request' (List.mem_cons_of_mem _ hmem))
    unfold dependencies at hfinal hanswers hplain ⊢
    simp only [List.map_cons, List.foldl_cons, answers, hstep]
    refine ⟨hfinal, ?_, fun answer hanswer => ?_⟩
    · exact congrArg _ hanswers
    · obtain rfl | hrest := List.mem_cons.mp hanswer
      · exact hraised
      · exact hplain answer hrest

/-- An identity that nobody has and a wrong token of one that is registered are answered alike. -/
theorem failures_reveal_nothing_registered :
    let request : Request :=
      ⟨some "agent-1", some "Bearer wrong", [], some "127.0.0.1", 0, 0, 0⟩
    let registered : AgentRegistry :=
      Dict.empty.set "agent-1" ⟨"agent-1", [1], some ([2], 10), true, none⟩
    (dependencies localhostPrimitives defaultAuthSettings registered
        ⟨.empty 100000 (by decide), .empty 100000 (by decide)⟩ [request, request]).2.map
          Answer.raised =
      (dependencies localhostPrimitives defaultAuthSettings Dict.empty
        ⟨.empty 100000 (by decide), .empty 100000 (by decide)⟩ [request, request]).2.map
          Answer.raised := by
  intro request registered
  have hplain : ∀ r ∈ [(request, (0 : ℤ)), (request, 0)],
      FailsPlainly localhostPrimitives Dict.empty r.1 := by
    intro r hr
    simp only [List.mem_cons, List.not_mem_nil, or_false, or_self] at hr
    rw [hr]
    exact ⟨.unknownAgent, rfl, by decide⟩
  have hplain' : ∀ r ∈ [(request, (0 : ℤ)), (request, 0)],
      FailsPlainly { localhostPrimitives with hashToken := fun _ => [] } registered
        (r.1.at r.2) := by
    intro r hr
    simp only [List.mem_cons, List.not_mem_nil, or_false, or_self] at hr
    rw [hr]
    exact ⟨.invalidCredential, rfl, by decide⟩
  exact (failures_reveal_nothing localhostPrimitives (fun _ => []) defaultAuthSettings Dict.empty
    registered ⟨.empty 100000 (by decide), .empty 100000 (by decide)⟩ _ rfl
    [(request, 0), (request, 0)] hplain hplain').2.1

end Hammertime.Ingest
