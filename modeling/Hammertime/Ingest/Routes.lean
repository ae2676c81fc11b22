import Hammertime.Ingest.Auth
import Hammertime.Ingest.Dedup
import Hammertime.Ingest.Publisher
import Hammertime.Lib.Machine
import Hammertime.Store.Interface

/-!
# The observation endpoint

`create_observation` of the ingest service, for any number of requests at once. A request runs from
one await to the next without interruption: it arrives, its body is read, it claims its sequence in
the dedup store, it hands a message for each address to the producer, these settle in any order, and
it flushes. Between two of these any other request may go on, so that an interleaving is a list of
actions.

`ingest_claims` says what the order of the checks is for. The parsers, the schema and the dedup store
are parameters, and the bus fails whenever it likes.
-/

namespace Hammertime.Ingest

open Lib Store

/-! ### The body of a request -/

/-- `ObservationEntry`. -/
structure ObservationEntry where
  ip : String
  requestCount : ℕ
  requestCount_le : requestCount ≤ 1000000000

/-- `ObservationRequest`, with what the model admits. -/
structure ObservationRequest where
  agentId : String
  sequence : ℤ
  windowStart : String
  windowSeconds : ℤ
  observations : List ObservationEntry
  agentId_length : 1 ≤ agentId.length ∧ agentId.length ≤ 128
  sequence_range : 0 ≤ sequence ∧ sequence ≤ 9223372036854775807
  windowSeconds_range : 1 ≤ windowSeconds ∧ windowSeconds ≤ 3600
  observations_length : 1 ≤ observations.length ∧ observations.length ≤ 10000

/-- What `json.loads` raises. -/
inductive LoadsError where
  | unicodeDecodeError (text : String)
  | recursionError
  | valueError (text : String)

/-- What the endpoint uses of the interpreter and of its libraries. -/
structure Parsers where
  /-- `repr` of a text. -/
  repr : String → String
  /-- `int` of a header, or its `ValueError`. -/
  int : String → Option ℤ
  /-- `json.loads`. -/
  loads : Bytes → Except LoadsError Json
  /-- `ObservationSchemaValidator.validate`: the text of its error, if there is one. -/
  validate : Json → Option String
  /-- `ObservationRequest.model_validate`, or the text of its `ValidationError`. -/
  modelValidate : Json → Except String ObservationRequest
  /-- `datetime.fromisoformat`, or its `ValueError`. -/
  fromisoformat : String → Option Codec.DateTime
  isoformat : Codec.DateTime → String
  /-- The number that the float of `timestamp` is. -/
  timestamp : Codec.DateTime → ℚ
  /-- `parse_address`, or the text of its `InvalidAddressError`. -/
  parseAddress : String → Except String Address

/-- `RateLimitScope`. -/
inductive Scope where
  | authFailures
  | requests
  | observations

/-- How a request is answered. -/
inductive Response where
  /-- `ServiceNotReady`. -/
  | notReady
  /-- 429 with its `Retry-After`. -/
  | throttled (scope : Scope) (retryAfterSeconds : ℤ)
  /-- `HTTPException`, except for the two others here. -/
  | refused (statusCode : ℕ) (detail : String)
  /-- 500, for an exception that nothing handles. -/
  | internalError
  /-- `ObservationDuplicate`. -/
  | duplicate
  /-- `ObservationAccepted`. -/
  | accepted
  /-- `failed to publish observation; retry is safe`. -/
  | publishFailed

/-- The status code. -/
def Response.status : Response → ℕ
  | .notReady => 503
  | .throttled _ _ => 429
  | .refused statusCode _ => statusCode
  | .internalError => 500
  | .duplicate => 200
  | .accepted => 202
  | .publishFailed => 503

/-- The settings of the endpoint. -/
structure IngestSettings where
  maxBodyBytes : ℕ
  maxObservations : ℕ
  rateLimitRps : ℚ
  observationRateLimitEps : ℚ
  observationBurst : ℤ

/-- `IngestState`, with the store that its `DedupService` is injected with and the duplicate window of
its bus. -/
structure Service (τ : Type) where
  library : Codec.Library
  primitives : Primitives
  parsers : Parsers
  authSettings : AuthSettings
  registry : AgentRegistry
  settings : IngestSettings
  bucketSeconds : ℤ
  publisher : ObservationPublisher library
  dedup : DedupService
  store : DedupStore τ
  /-- For how long the bus knows a `message_id`, none for one that never forgets. -/
  duplicateWindow : Option ℤ

variable {τ : Type} (service : Service τ)

/-- The loop of `_read_body_within_limit`. -/
def readChunks (maxBodyBytes : ℕ) : ℕ → List Bytes → Except Response Bytes
  | _, [] => .ok []
  | total, chunk :: rest =>
    if maxBodyBytes < total + chunk.length then
      .error (.refused 413
        s!"request body exceeds the {maxBodyBytes}-byte limit while streaming")
    else do
      let body ← readChunks maxBodyBytes (total + chunk.length) rest
      return chunk ++ body

namespace Service

/-- `_read_body_within_limit`. -/
def readBodyWithinLimit (contentLength : Option String) (chunks : List Bytes) :
    Except Response Bytes :=
  let maxBodyBytes := service.settings.maxBodyBytes
  match contentLength.bind service.parsers.int with
  | some declaredSize =>
    if (maxBodyBytes : ℤ) < declaredSize then
      .error (.refused 413 s!"Content-Length {declaredSize} exceeds the {maxBodyBytes}-byte limit")
    else readChunks maxBodyBytes 0 chunks
  | none => readChunks maxBodyBytes 0 chunks

/-- The document of a body. -/
def loadDocument (body : Bytes) : Except Response Json :=
  match service.parsers.loads body with
  | .ok document => .ok document
  | .error (.unicodeDecodeError exc) =>
    .error (.refused 400 s!"request body is not valid UTF-8: {exc}")
  | .error .recursionError => .error (.refused 400 "request body is nested too deeply to parse")
  | .error (.valueError exc) => .error (.refused 400 s!"request body is not valid JSON: {exc}")

/-- `check_observation_count`, for a document that has an array of observations. -/
def checkObservationCount (document : Json) : Except Response Unit :=
  match document with
  | .obj fields =>
    match Dict.lookup (Text.ofString "observations") fields with
    | some (.arr items) =>
      let count := items.length
      let limit := service.settings.maxObservations
      if limit < count then
        .error (.refused 413
          s!"observations array has {count} entries, exceeding the {limit}-entry limit")
      else .ok ()
    | _ => .ok ()
  | _ => .ok ()

/-- The schema and the model. -/
def validatePayload (document : Json) : Except Response ObservationRequest :=
  match service.parsers.validate document with
  | some exc => .error (.refused 400 exc)
  | none =>
    match service.parsers.modelValidate document with
    | .ok payload => .ok payload
    | .error exc => .error (.refused 400 s!"observation payload is invalid: {exc}")

/-- `_parse_window_start`: a naive value is one in UTC. -/
def parseWindowStart (value : String) : Except Response Codec.DateTime :=
  match service.parsers.fromisoformat value with
  | none =>
    let shown := service.parsers.repr value
    .error (.refused 400 s!"window_start is not a valid date-time: {shown}")
  | some parsed => .ok { parsed with offset := some (parsed.offset.getD 0) }

/-- `check_window_alignment`. -/
def checkWindowAlignment (windowStart : Codec.DateTime) : Except Response Unit :=
  let epochSeconds := service.parsers.timestamp windowStart
  if epochSeconds.den ≠ 1 ∨ epochSeconds.num % service.bucketSeconds ≠ 0 then
    let shown := service.parsers.repr (service.parsers.isoformat windowStart)
    let bucketSeconds := service.bucketSeconds
    .error (.refused 400
      s!"window_start {shown} is not aligned to bucket_seconds={bucketSeconds}")
  else .ok ()

/-- One entry of the batch. -/
def toObservation (entry : ObservationEntry) : Except Response Observation :=
  match service.parsers.parseAddress entry.ip with
  | .ok ip => .ok ⟨ip, entry.requestCount⟩
  | .error exc => .error (.refused 400 exc)

/-- `_to_request_observation`. -/
def toRequestObservation (payload : ObservationRequest) : Except Response Batch := do
  let windowStart ← service.parseWindowStart payload.windowStart
  service.checkWindowAlignment windowStart
  let observations ← payload.observations.mapM service.toObservation
  return ⟨payload.agentId, payload.sequence, windowStart, payload.windowSeconds, observations⟩

/-- `publisher.coalesce`, for the number of addresses. -/
def batchCost (batch : Batch) : Except Response ℕ :=
  match coalesce batch.observations with
  | .ok coalesced => .ok coalesced.length
  | .error overflow =>
    let ip := service.library.addressText overflow.ip
    let total := overflow.total
    .error (.refused 400 (s!"coalesced request_count for {ip} is {total}, exceeding the " ++
      s!"maximum of {maxRequestCount} (schemas/observation.v1.json)"))

/-- The body names the agent that was authenticated. -/
def checkAgent (payload : ObservationRequest) (agentId : String) : Except Response Unit :=
  if payload.agentId ≠ agentId then
    let claimed := service.parsers.repr payload.agentId
    let authenticated := service.parsers.repr agentId
    .error (.refused 403 (s!"request body agent_id {claimed} does not match the " ++
      s!"authenticated agent {authenticated}"))
  else .ok ()

/-- The cost fits into the budget of observations. -/
def checkCapacity (cost : ℕ) : Except Response Unit :=
  let capacity := service.settings.observationBurst
  if capacity < cost then
    .error (.refused 413 (s!"batch cost {cost} (distinct IPs) exceeds the observation " ++
      s!"capacity of {capacity}"))
  else .ok ()

/-- Everything between the two budgets: the batch and its cost. -/
def parseBatch (agentId : String) (contentLength : Option String) (chunks : List Bytes) :
    Except Response (Batch × ℕ) := do
  let body ← service.readBodyWithinLimit contentLength chunks
  let document ← service.loadDocument body
  service.checkObservationCount document
  let payload ← service.validatePayload document
  service.checkAgent payload agentId
  let batch ← service.toRequestObservation payload
  let cost ← service.batchCost batch
  service.checkCapacity cost
  return (batch, cost)

end Service

/-! ### One request -/

/-- A request, less its body. -/
structure Post where
  headers : Request
  contentLength : Option String
  /-- What `rate_limiter` reads from its clock. -/
  now : ℤ

/-- Where a request is. -/
inductive Stage where
  /-- Its body is being read. -/
  | reading (agentId : String)
  /-- `dedup.claim` is called. -/
  | claiming (agentId : String) (batch : Batch)
  /-- The claim has been answered. -/
  | claimed (batch : Batch) (answer : Bool)
  /-- `asyncio.gather` in `publish`: the messages that have not settled, and whether one of the others
  failed. -/
  | publishing (batch : Batch) (waiting : List Message) (failed : Bool)
  | flushing (batch : Batch)
  /-- It has been answered, with the batch if it came as far as the claim. -/
  | ended (batch : Option Batch) (response : Response)

/-- The limiters of the service. -/
structure Budgets where
  auth : Limiters
  requests : RateLimiter
  observations : RateLimiter

/-- What becomes of a request as far as its next await. -/
structure Passage where
  budgets : Budgets
  /-- The budget that was charged, and the key. -/
  charges : List (Scope × String)
  stage : Stage

/-- The answer to a request that is not authenticated. -/
def authResponse : Answer → Response
  | .disabled => .refused 403 "agent is disabled"
  | .throttled retryAfterSeconds => .throttled .authFailures retryAfterSeconds
  | .internalError => .internalError
  | _ => .refused 401 "invalid agent credentials"

/-- The stage after a charge. -/
def Stage.charged (scope : Scope) (next : Stage) : Except CheckError Unit → Stage
  | .ok () => next
  | .error (.exceeded retryAfter) => .ended none (.throttled scope (max 1 ⌈retryAfter⌉))
  | .error (.valueError _) => .ended none .internalError

namespace Service

/-- `effective_limit_rps`. -/
def effectiveLimitRps (agentId : String) : ℚ :=
  match (service.registry.get? agentId).bind AgentRecord.rateLimitRps with
  | some rateLimitRps => rateLimitRps
  | none => service.settings.rateLimitRps

/-- A request arrives: the gate, the authentication and the budget of requests. -/
def arrive (ready : Bool) (budgets : Budgets) (post : Post) : Passage :=
  if ¬ ready then ⟨budgets, [], .ended none .notReady⟩
  else
    let (auth, answer) := dependency service.primitives service.authSettings service.registry
      budgets.auth post.headers
    match answer with
    | .authenticated agentId =>
      let (requests, charged) :=
        budgets.requests.check post.now agentId (service.effectiveLimitRps agentId) 1 none
      ⟨{ budgets with auth, requests }, [(.requests, agentId)],
        .charged .requests (.reading agentId) charged⟩
    | answer => ⟨{ budgets with auth }, [], .ended none (authResponse answer)⟩

/-- The body has been read: its checks and the budget of observations. -/
def receive (budgets : Budgets) (agentId : String) (post : Post) (chunks : List Bytes) (now : ℤ) :
    Passage :=
  match service.parseBatch agentId post.contentLength chunks with
  | .error response => ⟨budgets, [], .ended none response⟩
  | .ok (batch, cost) =>
    let (observations, charged) := budgets.observations.check now agentId
      service.settings.observationRateLimitEps cost (some service.settings.observationBurst)
    ⟨{ budgets with observations }, [(.observations, agentId)],
      .charged .observations (.claiming agentId batch) charged⟩

end Service

/-- The rest of `publish` once nothing is waited for. -/
def Stage.gather (batch : Batch) (failed : Bool) : List Message → Stage
  | [] => if failed then .ended (some batch) .publishFailed else .flushing batch
  | waiting => .publishing batch waiting failed

/-- `publish` begins: the messages of the entries that encode go to the producer. -/
def Service.beginPublish (batch : Batch) (timestamp : Codec.DateTime) : Stage :=
  match service.publisher.publish batch timestamp with
  | .error _ => .ended (some batch) .publishFailed
  | .ok results =>
    .gather batch (results.any fun result => ¬ result.isOk) (results.filterMap Except.toOption)

/-! ### The service -/

/-- A message on the log, and when it was appended. -/
structure Logged where
  message : Message
  time : ℤ

/-- The bus appends a message, unless it knows its id. -/
def appendMessage (duplicateWindow : Option ℤ) (now : ℤ) (log : List Logged) (message : Message) :
    List Logged :=
  if ∃ logged ∈ log, logged.message.messageId = message.messageId ∧
      ∀ window ∈ duplicateWindow, now < logged.time + window then log
  else log ++ [⟨message, now⟩]

/-- How a publish settles. One that raises may have reached the log. -/
inductive Outcome where
  | acknowledged
  | raised (recorded : Bool)

/-- The message is on the log. -/
def Outcome.recorded : Outcome → Bool
  | .acknowledged => true
  | .raised recorded => recorded

/-- The publish failed. -/
def Outcome.failed : Outcome → Bool
  | .acknowledged => false
  | .raised _ => true

/-- A call of the dedup store. -/
structure ClaimCall (τ : Type) where
  time : τ
  agentId : String
  sequence : ℤ
  ttlSeconds : ℤ

/-- What the requests did, in this order. -/
inductive Event (τ : Type) where
  /-- A budget was charged. -/
  | charged (id : ℕ) (scope : Scope) (key : String)
  | claimed (id : ℕ) (call : ClaimCall τ) (answer : Bool)
  /-- `publisher.publish` was called. -/
  | published (id : ℕ) (batch : Batch)

/-- A request and where it is. -/
structure Call where
  post : Post
  stage : Stage

/-- The service between two steps. -/
structure Server (σ τ : Type) where
  ready : Bool
  budgets : Budgets
  /-- The state of the dedup store. -/
  dedup : σ
  /-- The topic of the observations. -/
  log : List Logged
  calls : ℕ → Option Call
  events : List (Event τ)

/-- What happens next. -/
inductive Action (τ : Type) where
  | setReady (ready : Bool)
  | arrive (id : ℕ) (post : Post)
  /-- The body of a request is there, and `observation_limiter` reads its clock. -/
  | body (id : ℕ) (chunks : List Bytes) (now : ℤ)
  /-- The claim of a request takes effect at the store. -/
  | claim (id : ℕ) (time : τ)
  /-- The request goes on from the answer, at the time of `datetime.now(UTC)`. -/
  | resume (id : ℕ) (timestamp : Codec.DateTime)
  /-- One of the messages that are waited for settles. -/
  | settle (id : ℕ) (index : ℕ) (now : ℤ) (outcome : Outcome)
  /-- `flush` returns or raises. -/
  | flush (id : ℕ) (failed : Bool)

/-- A request is where it is now, after it did what is listed. -/
def Server.advance {σ : Type} (s : Server σ τ) (id : ℕ) (post : Post) (stage : Stage)
    (events : List (Event τ)) : Server σ τ :=
  { s with
    calls := Function.update s.calls id (some ⟨post, stage⟩)
    events := s.events ++ events }

/-- One step. -/
def step (s : Server service.store.State τ) : Action τ → Server service.store.State τ
  | .setReady ready => { s with ready }
  | .arrive id post =>
    match s.calls id with
    | some _ => s
    | none =>
      let passage := service.arrive s.ready s.budgets post
      { s with budgets := passage.budgets }.advance id post passage.stage
        (passage.charges.map fun charge : Scope × String => .charged id charge.1 charge.2)
  | .body id chunks now =>
    match s.calls id with
    | some ⟨post, .reading agentId⟩ =>
      let passage := service.receive s.budgets agentId post chunks now
      { s with budgets := passage.budgets }.advance id post passage.stage
        (passage.charges.map fun charge : Scope × String => .charged id charge.1 charge.2)
    | _ => s
  | .claim id time =>
    match s.calls id with
    | some ⟨post, .claiming agentId batch⟩ =>
      let ttlSeconds := service.dedup.ttlSeconds batch.windowSeconds
      let claimed := service.store.claim s.dedup time agentId batch.sequence ttlSeconds
      { s with dedup := claimed.2 }.advance id post (.claimed batch claimed.1)
        [.claimed id ⟨time, agentId, batch.sequence, ttlSeconds⟩ claimed.1]
    | _ => s
  | .resume id timestamp =>
    match s.calls id with
    | some ⟨post, .claimed batch false⟩ => s.advance id post (.ended (some batch) .duplicate) []
    | some ⟨post, .claimed batch true⟩ =>
      s.advance id post (service.beginPublish batch timestamp) [.published id batch]
    | _ => s
  | .settle id index now outcome =>
    match s.calls id with
    | some ⟨post, .publishing batch waiting failed⟩ =>
      match waiting[index]? with
      | some message =>
        let log := if outcome.recorded then
          appendMessage service.duplicateWindow now s.log message else s.log
        { s with log }.advance id post
          (.gather batch (failed || outcome.failed) (waiting.eraseIdx index)) []
      | none => s
    | _ => s
  | .flush id failed =>
    match s.calls id with
    | some ⟨post, .flushing batch⟩ =>
      s.advance id post (.ended (some batch) (if failed then .publishFailed else .accepted)) []
    | _ => s

/-- A service before its first request. -/
def start {σ : Type} (ready : Bool) (budgets : Budgets) (dedup : σ) : Server σ τ :=
  ⟨ready, budgets, dedup, [], fun _ => none, []⟩

/-! ### One step of one request -/

/-- What a step of a request can be, and the stage that it leads to. -/
inductive Moves (s : Server service.store.State τ) (id : ℕ) (post : Post) : Action τ → Stage → Prop
  | arrive : s.calls id = none →
    Moves s id post (.arrive id post) (service.arrive s.ready s.budgets post).stage
  | body (agentId : String) (chunks : List Bytes) (now : ℤ) :
    s.calls id = some ⟨post, .reading agentId⟩ →
    Moves s id post (.body id chunks now) (service.receive s.budgets agentId post chunks now).stage
  | claim (agentId : String) (batch : Batch) (time : τ) (answer : Bool) :
    s.calls id = some ⟨post, .claiming agentId batch⟩ →
    Moves s id post (.claim id time) (.claimed batch answer)
  | told (batch : Batch) (timestamp : Codec.DateTime) :
    s.calls id = some ⟨post, .claimed batch false⟩ →
    Moves s id post (.resume id timestamp) (.ended (some batch) .duplicate)
  | publish (batch : Batch) (timestamp : Codec.DateTime) :
    s.calls id = some ⟨post, .claimed batch true⟩ →
    Moves s id post (.resume id timestamp) (service.beginPublish batch timestamp)
  | settle (batch : Batch) (waiting : List Message) (failed : Bool) (index : ℕ) (message : Message)
    (now : ℤ) (outcome : Outcome) :
    s.calls id = some ⟨post, .publishing batch waiting failed⟩ → waiting[index]? = some message →
    Moves s id post (.settle id index now outcome)
      (.gather batch (failed || outcome.failed) (waiting.eraseIdx index))
  | flush (batch : Batch) (failed : Bool) : s.calls id = some ⟨post, .flushing batch⟩ →
    Moves s id post (.flush id failed)
      (.ended (some batch) (if failed then .publishFailed else .accepted))

/-- A step leaves a request where it was, or is one of its own. -/
theorem step_moves (s : Server service.store.State τ) (action : Action τ) (id : ℕ) :
    (step service s action).calls id = s.calls id ∨ ∃ post stage,
      (step service s action).calls id = some ⟨post, stage⟩ ∧ Moves service s id post action stage := by
  -- A step of another request does not touch this one.
  have hcalls : ∀ (id' : ℕ) (post : Post) (stage : Stage),
      (id' = id → Moves service s id post action stage) →
      Function.update s.calls id' (some ⟨post, stage⟩) id = s.calls id ∨ ∃ post' stage',
        Function.update s.calls id' (some ⟨post, stage⟩) id = some ⟨post', stage'⟩ ∧
          Moves service s id post' action stage' := by
    intro id' post stage hmoves
    by_cases hid : id' = id
    · refine Or.inr ⟨post, stage, ?_, hmoves hid⟩
      rw [hid, Function.update_self]
    · exact Or.inl (Function.update_of_ne (Ne.symm hid) _ _)
  cases action with
  | setReady ready => exact Or.inl rfl
  | arrive id' post =>
    dsimp only [step]
    split
    · exact Or.inl rfl
    · rename_i hnone
      exact hcalls id' post _ fun hid => hid ▸ .arrive (hid ▸ hnone)
  | body id' chunks now =>
    dsimp only [step]
    split
    · rename_i post agentId hcall
      exact hcalls id' post _ fun hid => hid ▸ .body agentId chunks now (hid ▸ hcall)
    · exact Or.inl rfl
  | claim id' time =>
    dsimp only [step]
    split
    · rename_i post agentId batch hcall
      exact hcalls id' post _ fun hid => hid ▸ .claim agentId batch time _ (hid ▸ hcall)
    · exact Or.inl rfl
  | resume id' timestamp =>
    dsimp only [step]
    split
    · rename_i post batch hcall
      exact hcalls id' post _ fun hid => hid ▸ .told batch timestamp (hid ▸ hcall)
    · rename_i post batch hcall
      exact hcalls id' post _ fun hid => hid ▸ .publish batch timestamp (hid ▸ hcall)
    · exact Or.inl rfl
  | settle id' index now outcome =>
    dsimp only [step]
    split
    · rename_i post batch waiting failed hcall
      split
      · rename_i message hmessage
        exact hcalls id' post _ fun hid =>
          hid ▸ .settle batch waiting failed index message now outcome (hid ▸ hcall) hmessage
      · exact Or.inl rfl
    · exact Or.inl rfl
  | flush id' failed =>
    dsimp only [step]
    split
    · rename_i post batch hcall
      exact hcalls id' post _ fun hid => hid ▸ .flush batch failed (hid ▸ hcall)
    · exact Or.inl rfl

/-! ### What the checks leave -/

/-- What is known of a batch that has passed the checks. -/
structure Batch.Checked (authenticated : String) (batch : Batch) : Prop where
  agentId : batch.agentId = authenticated
  sequence : 0 ≤ batch.sequence ∧ batch.sequence ≤ 9223372036854775807
  windowSeconds : 1 ≤ batch.windowSeconds ∧ batch.windowSeconds ≤ 3600
  total : ∀ ip, total batch.observations ip ≤ maxRequestCount

/-- Every error is an `HTTPException` of a check. -/
def Refusing {α : Type} (x : Except Response α) : Prop :=
  ∀ response, x = .error response → ∃ statusCode detail, response = .refused statusCode detail

section

variable {α β : Type}

theorem refusing_ok (a : α) : Refusing (.ok a) := nofun

theorem refusing_error (statusCode : ℕ) (detail : String) :
    Refusing (.error (.refused statusCode detail) : Except Response α) := by
  intro response h
  cases h
  exact ⟨statusCode, detail, rfl⟩

theorem Refusing.bind {x : Except Response α} {f : α → Except Response β} (hx : Refusing x)
    (hf : ∀ a, Refusing (f a)) : Refusing (x >>= f) := by
  intro response h
  cases x with
  | ok a => exact hf a response h
  | error e =>
    cases h
    exact hx _ rfl

theorem Refusing.ite {p : Prop} [Decidable p] {x y : Except Response α} (hx : Refusing x)
    (hy : Refusing y) : Refusing (if p then x else y) := by
  split_ifs
  · exact hx
  · exact hy

theorem refusing_mapM {f : α → Except Response β} (hf : ∀ a, Refusing (f a)) (l : List α) :
    Refusing (l.mapM f) := by
  induction l with
  | nil => exact refusing_ok _
  | cons a l ih =>
    rw [List.mapM_cons]
    exact (hf a).bind fun b => ih.bind fun l' => refusing_ok _

end

namespace Service

theorem refusing_readChunks (maxBodyBytes total : ℕ) (chunks : List Bytes) :
    Refusing (readChunks maxBodyBytes total chunks) := by
  induction chunks generalizing total with
  | nil => exact refusing_ok _
  | cons chunk rest ih =>
    exact (refusing_error _ _).ite ((ih _).bind fun body => refusing_ok _)

theorem refusing_readBodyWithinLimit (contentLength : Option String) (chunks : List Bytes) :
    Refusing (service.readBodyWithinLimit contentLength chunks) := by
  unfold readBodyWithinLimit
  split
  · exact (refusing_error _ _).ite (refusing_readChunks _ _ _)
  · exact refusing_readChunks _ _ _

theorem refusing_toRequestObservation (payload : ObservationRequest) :
    Refusing (service.toRequestObservation payload) := by
  have hstart : Refusing (service.parseWindowStart payload.windowStart) := by
    unfold parseWindowStart
    split
    · exact refusing_error _ _
    · exact refusing_ok _
  have hentry : ∀ entry, Refusing (service.toObservation entry) := by
    intro entry
    unfold toObservation
    split
    · exact refusing_ok _
    · exact refusing_error _ _
  exact hstart.bind fun windowStart => ((refusing_error _ _).ite (refusing_ok _)).bind fun _ =>
    (refusing_mapM hentry _).bind fun _ => refusing_ok _

/-- A batch is turned down by an `HTTPException`. -/
theorem refusing_parseBatch (agentId : String) (contentLength : Option String)
    (chunks : List Bytes) : Refusing (service.parseBatch agentId contentLength chunks) := by
  have hload : ∀ body, Refusing (service.loadDocument body) := by
    intro body
    unfold loadDocument
    split
    · exact refusing_ok _
    · exact refusing_error _ _
    · exact refusing_error _ _
    · exact refusing_error _ _
  have hcount : ∀ document, Refusing (service.checkObservationCount document) := by
    intro document
    unfold checkObservationCount
    split
    · split
      · exact (refusing_error _ _).ite (refusing_ok _)
      · exact refusing_ok _
    · exact refusing_ok _
  have hvalidate : ∀ document, Refusing (service.validatePayload document) := by
    intro document
    unfold validatePayload
    split
    · exact refusing_error _ _
    · split
      · exact refusing_ok _
      · exact refusing_error _ _
  have hcost : ∀ batch, Refusing (service.batchCost batch) := by
    intro batch
    unfold batchCost
    split
    · exact refusing_ok _
    · exact refusing_error _ _
  exact (service.refusing_readBodyWithinLimit contentLength chunks).bind fun body =>
    (hload body).bind fun document => (hcount document).bind fun _ =>
      (hvalidate document).bind fun payload =>
        ((refusing_error _ _).ite (refusing_ok _)).bind fun _ =>
          (service.refusing_toRequestObservation payload).bind fun batch =>
            (hcost batch).bind fun cost => ((refusing_error _ _).ite (refusing_ok _)).bind fun _ =>
              refusing_ok _

/-- A batch that passes is the authenticated agent's, and none of its sums overflows. -/
theorem checked_of_parseBatch {agentId : String} {contentLength : Option String}
    {chunks : List Bytes} {batch : Batch} {cost : ℕ}
    (h : service.parseBatch agentId contentLength chunks = .ok (batch, cost)) :
    batch.Checked agentId := by
  unfold parseBatch at h
  obtain ⟨body, -, h⟩ := except_bind_ok.mp h
  obtain ⟨document, -, h⟩ := except_bind_ok.mp h
  obtain ⟨_, -, h⟩ := except_bind_ok.mp h
  obtain ⟨payload, -, h⟩ := except_bind_ok.mp h
  obtain ⟨_, hagent, h⟩ := except_bind_ok.mp h
  obtain ⟨batch', hbatch, h⟩ := except_bind_ok.mp h
  obtain ⟨cost', hcost, h⟩ := except_bind_ok.mp h
  obtain ⟨_, -, h⟩ := except_bind_ok.mp h
  cases h
  unfold checkAgent at hagent
  split_ifs at hagent with hne
  unfold batchCost at hcost
  split at hcost
  · rename_i coalesced hcoalesce
    unfold toRequestObservation at hbatch
    obtain ⟨windowStart, -, hbatch⟩ := except_bind_ok.mp hbatch
    obtain ⟨_, -, hbatch⟩ := except_bind_ok.mp hbatch
    obtain ⟨observations, -, hbatch⟩ := except_bind_ok.mp hbatch
    cases hbatch
    exact ⟨not_not.mp hne, payload.sequence_range, payload.windowSeconds_range,
      total_le_of_coalesce hcoalesce⟩
  · cases hcost

/-- The request was authenticated as the agent. -/
def Authenticated (post : Post) (agentId : String) : Prop :=
  authenticateRequest service.primitives service.registry post.headers = .ok agentId

end Service

/-- The response is none of those that come after the claim. -/
def Response.Rejects (response : Response) : Prop :=
  response ≠ .duplicate ∧ response ≠ .accepted ∧ response ≠ .publishFailed

theorem Refusing.rejects {α : Type} {x : Except Response α} (h : Refusing x) {response : Response}
    (hx : x = .error response) : response.Rejects := by
  obtain ⟨statusCode, detail, rfl⟩ := h response hx
  exact ⟨nofun, nofun, nofun⟩

theorem rejects_authResponse (answer : Answer) : (authResponse answer).Rejects := by
  cases answer with
  | authenticated agentId => exact ⟨nofun, nofun, nofun⟩
  | unauthorized => exact ⟨nofun, nofun, nofun⟩
  | disabled => exact ⟨nofun, nofun, nofun⟩
  | throttled retryAfterSeconds => exact ⟨nofun, nofun, nofun⟩
  | internalError => exact ⟨nofun, nofun, nofun⟩

/-- A charge lets the request go on, or ends it before the claim. -/
theorem Stage.charged_cases (scope : Scope) (next : Stage) (charged : Except CheckError Unit) :
    Stage.charged scope next charged = next ∨
      ∃ response, Stage.charged scope next charged = .ended none response ∧ response.Rejects := by
  match charged with
  | .ok () => exact .inl rfl
  | .error (.exceeded retryAfter) => exact .inr ⟨_, rfl, nofun, nofun, nofun⟩
  | .error (.valueError refusal) => exact .inr ⟨_, rfl, nofun, nofun, nofun⟩

/-- The dependency answers with an agent only if the registry did. -/
theorem authenticated_of_dependency {primitives : Primitives} {settings : AuthSettings}
    {registry : AgentRegistry} {limiters : Limiters} {request : Request} {agentId : String}
    (h : (dependency primitives settings registry limiters request).2 = .authenticated agentId) :
    authenticateRequest primitives registry request = .ok agentId := by
  unfold dependency at h
  split at h
  · rename_i agentId' hok
    cases h
    exact hok
  · rename_i e herror
    dsimp only at h
    split at h
    · cases h
    · cases h
    · split at h
      · cases h
      · cases h
      · cases e with
        | missingCredential => cases h
        | oversizedCredential => cases h
        | unknownAgent => cases h
        | invalidCredential => cases h
        | agentDisabled => cases h

/-- What is known where a request stops for its body. -/
theorem Service.arrive_spec (ready : Bool) (budgets : Budgets) (post : Post) :
    (∀ charge ∈ (service.arrive ready budgets post).charges,
      service.Authenticated post charge.2) ∧
    ((∃ agentId, (service.arrive ready budgets post).stage = .reading agentId ∧
        service.Authenticated post agentId) ∨
      ∃ response, (service.arrive ready budgets post).stage = .ended none response ∧
        response.Rejects) := by
  cases ready with
  | false =>
    exact ⟨fun _ hcharge => absurd hcharge List.not_mem_nil, .inr ⟨_, rfl, nofun, nofun, nofun⟩⟩
  | true =>
    unfold Service.arrive
    rw [if_neg (by decide)]
    dsimp only
    split
    · rename_i agentId hanswer
      have hauth : service.Authenticated post agentId := authenticated_of_dependency hanswer
      refine ⟨fun charge hcharge => ?_, ?_⟩
      · rw [List.mem_singleton.mp hcharge]
        exact hauth
      · obtain hnext | hended := Stage.charged_cases .requests (.reading agentId)
          (budgets.requests.check post.now agentId (service.effectiveLimitRps agentId) 1 none).2
        · exact .inl ⟨agentId, hnext, hauth⟩
        · exact .inr hended
    · exact ⟨fun _ hcharge => absurd hcharge List.not_mem_nil,
        .inr ⟨_, rfl, rejects_authResponse _⟩⟩

/-- What is known where a request stops for its claim. -/
theorem Service.receive_spec (budgets : Budgets) (agentId : String) (post : Post)
    (chunks : List Bytes) (now : ℤ) :
    (∀ charge ∈ (service.receive budgets agentId post chunks now).charges, charge.2 = agentId) ∧
    ((∃ batch, (service.receive budgets agentId post chunks now).stage = .claiming agentId batch ∧
        batch.Checked agentId) ∨
      ∃ response, (service.receive budgets agentId post chunks now).stage = .ended none response ∧
        response.Rejects) := by
  unfold Service.receive
  split
  · rename_i response herror
    exact ⟨fun _ hcharge => absurd hcharge List.not_mem_nil,
      .inr ⟨response, rfl, (service.refusing_parseBatch _ _ _).rejects herror⟩⟩
  · rename_i batch cost hparsed
    refine ⟨fun charge hcharge => ?_, ?_⟩
    · rw [List.mem_singleton.mp hcharge]
    · obtain hnext | hended := Stage.charged_cases .observations (.claiming agentId batch)
        (budgets.observations.check now agentId service.settings.observationRateLimitEps cost
          (some service.settings.observationBurst)).2
      · exact .inl ⟨batch, hnext, service.checked_of_parseBatch hparsed⟩
      · exact .inr hended

/-- Where a publish is once it has begun. -/
inductive Stage.Published (batch : Batch) : Stage → Prop
  | publishing (waiting : List Message) (failed : Bool) :
    Published batch (.publishing batch waiting failed)
  | flushing : Published batch (.flushing batch)
  | failed : Published batch (.ended (some batch) .publishFailed)
  | accepted : Published batch (.ended (some batch) .accepted)

theorem Stage.published_gather (batch : Batch) (failed : Bool) (waiting : List Message) :
    (Stage.gather batch failed waiting).Published batch := by
  match waiting with
  | [] =>
    unfold Stage.gather
    split_ifs
    · exact .failed
    · exact .flushing
  | message :: rest => exact .publishing _ _

theorem Service.published_beginPublish (batch : Batch) (timestamp : Codec.DateTime) :
    (service.beginPublish batch timestamp).Published batch := by
  unfold Service.beginPublish
  split
  · exact .failed
  · exact Stage.published_gather _ _ _

/-! ### What the requests did -/

namespace Event

/-- The request. -/
def id : Event τ → ℕ
  | .charged id _ _ => id
  | .claimed id _ _ => id
  | .published id _ => id

/-- The agent that the request acted for. -/
def agentId : Event τ → String
  | .charged _ _ key => key
  | .claimed _ call _ => call.agentId
  | .published _ batch => batch.agentId

/-- A claim of a request, and its answer. -/
def claimBy (id : ℕ) : Event τ → Option (String × ℤ × Bool)
  | .claimed id' call answer =>
    if id' = id then some (call.agentId, call.sequence, answer) else none
  | _ => none

/-- A batch that a request published. -/
def publishBy (id : ℕ) : Event τ → Option Batch
  | .published id' batch => if id' = id then some batch else none
  | _ => none

/-- The event is a call of the dedup store. -/
def isClaim : Event τ → Bool
  | .claimed _ _ _ => true
  | _ => false

end Event

/-- The claims of a request. -/
def claimsOf (events : List (Event τ)) (id : ℕ) : List (String × ℤ × Bool) :=
  events.filterMap (Event.claimBy id)

/-- The publishes of a request. -/
def publishesOf (events : List (Event τ)) (id : ℕ) : List Batch :=
  events.filterMap (Event.publishBy id)

/-- The dedup store after the claims among the events. -/
def replay (dedup : service.store.State) (events : List (Event τ)) : service.store.State :=
  events.foldl
    (fun dedup event =>
      match event with
      | .claimed _ call _ =>
        (service.store.claim dedup call.time call.agentId call.sequence call.ttlSeconds).2
      | _ => dedup)
    dedup

section

variable {events more : List (Event τ)} {id : ℕ}

theorem claimsOf_append : claimsOf (events ++ more) id = claimsOf events id ++ claimsOf more id :=
  List.filterMap_append

theorem publishesOf_append :
    publishesOf (events ++ more) id = publishesOf events id ++ publishesOf more id :=
  List.filterMap_append

theorem claimsOf_of_ne (h : ∀ event ∈ more, event.id ≠ id) : claimsOf more id = [] := by
  refine List.filterMap_eq_nil_iff.mpr fun event hevent => ?_
  cases event with
  | charged => rfl
  | claimed id' call answer => exact if_neg (h _ hevent)
  | published => rfl

theorem publishesOf_of_ne (h : ∀ event ∈ more, event.id ≠ id) : publishesOf more id = [] := by
  refine List.filterMap_eq_nil_iff.mpr fun event hevent => ?_
  cases event with
  | charged => rfl
  | claimed => rfl
  | published id' batch => exact if_neg (h _ hevent)

theorem claimsOf_of_not_isClaim (h : ∀ event ∈ more, event.isClaim = false) :
    claimsOf more id = [] := by
  refine List.filterMap_eq_nil_iff.mpr fun event hevent => ?_
  cases event with
  | charged => rfl
  | claimed id' call answer => cases h _ hevent
  | published => rfl

theorem claimsOf_claimed (id : ℕ) (call : ClaimCall τ) (answer : Bool) (other : ℕ) :
    claimsOf [.claimed id call answer] other =
      if id = other then [(call.agentId, call.sequence, answer)] else [] := by
  unfold claimsOf
  rw [List.filterMap_cons, List.filterMap_nil]
  dsimp only [Event.claimBy]
  split_ifs
  · rfl
  · rfl

theorem replay_append (dedup : service.store.State) :
    replay service dedup (events ++ more) = replay service (replay service dedup events) more :=
  List.foldl_append

theorem replay_of_not_isClaim (dedup : service.store.State)
    (h : ∀ event ∈ more, event.isClaim = false) : replay service dedup more = dedup := by
  induction more generalizing dedup with
  | nil => rfl
  | cons event rest ih =>
    have hrest := ih dedup fun other hother => h other (List.mem_cons_of_mem _ hother)
    cases event with
    | charged => exact hrest
    | claimed id' call answer => cases h _ List.mem_cons_self
    | published => exact hrest

end

/-! ### The invariant -/

/-- The batch has passed the checks, as the agent that was authenticated. -/
def Service.Passed (post : Post) (batch : Batch) : Prop :=
  service.Authenticated post batch.agentId ∧ batch.Checked batch.agentId

/-- What a request has done when it is at a stage. -/
def StageInvariant (post : Post) (claims : List (String × ℤ × Bool)) (publishes : List Batch) :
    Stage → Prop
  | .reading agentId => service.Authenticated post agentId ∧ claims = [] ∧ publishes = []
  | .claiming agentId batch =>
    service.Authenticated post agentId ∧ batch.Checked agentId ∧ claims = [] ∧ publishes = []
  | .claimed batch answer =>
    service.Passed post batch ∧ claims = [(batch.agentId, batch.sequence, answer)] ∧
      publishes = []
  | .ended none response => response.Rejects ∧ claims = [] ∧ publishes = []
  | .ended (some batch) .duplicate =>
    service.Passed post batch ∧ claims = [(batch.agentId, batch.sequence, false)] ∧ publishes = []
  | stage => ∃ batch, stage.Published batch ∧ service.Passed post batch ∧
      claims = [(batch.agentId, batch.sequence, true)] ∧ publishes = [batch]

theorem stageInvariant_of_published {post : Post} {claims : List (String × ℤ × Bool)}
    {publishes : List Batch} {stage : Stage} {batch : Batch} (h : stage.Published batch)
    (hpassed : service.Passed post batch)
    (hclaims : claims = [(batch.agentId, batch.sequence, true)]) (hpublishes : publishes = [batch]) :
    StageInvariant service post claims publishes stage := by
  cases h with
  | publishing waiting failed => exact ⟨batch, .publishing _ _, hpassed, hclaims, hpublishes⟩
  | flushing => exact ⟨batch, .flushing, hpassed, hclaims, hpublishes⟩
  | failed => exact ⟨batch, .failed, hpassed, hclaims, hpublishes⟩
  | accepted => exact ⟨batch, .accepted, hpassed, hclaims, hpublishes⟩

/-- What is known of the requests. -/
structure CallsInvariant (calls : ℕ → Option Call) (events : List (Event τ)) : Prop where
  absent : ∀ id, calls id = none → claimsOf events id = [] ∧ publishesOf events id = []
  stages : ∀ id call, calls id = some call →
    StageInvariant service call.post (claimsOf events id) (publishesOf events id) call.stage
  agents : ∀ event ∈ events, ∃ call, calls event.id = some call ∧
    service.Authenticated call.post event.agentId

/-- What is known of the dedup store, which was in a state at the start. -/
structure StoreInvariant (initial dedup : service.store.State) (events : List (Event τ)) :
    Prop where
  replayed : dedup = replay service initial events
  /-- What the store has seen was there at the start, or was claimed. -/
  seen : ∀ t a x, 0 ≤ x → service.store.hasSeen dedup t a x = true →
    (∃ t', service.store.hasSeen initial t' a x = true) ∨
      ∃ id, (a, x, true) ∈ claimsOf events id
  /-- So it is where a claim was refused. -/
  refused : ∀ id a x, (a, x, false) ∈ claimsOf events id →
    (∃ t', service.store.hasSeen initial t' a x = true) ∨
      ∃ id', (a, x, true) ∈ claimsOf events id'

/-- The invariant of the service. -/
structure Invariant (initial : service.store.State) (s : Server service.store.State τ) : Prop where
  calls : CallsInvariant service s.calls s.events
  store : StoreInvariant service initial s.dedup s.events

section

variable {service} {initial dedup : service.store.State} {events more : List (Event τ)}
  {calls : ℕ → Option Call}

/-- A request takes a step, and does what is listed. -/
theorem CallsInvariant.advance (h : CallsInvariant service calls events) {id : ℕ} {post : Post}
    (hpost : ∀ call, calls id = some call → call.post = post)
    (hmore : ∀ event ∈ more, event.id = id ∧ service.Authenticated post event.agentId)
    {stage : Stage}
    (hstage : StageInvariant service post (claimsOf events id ++ claimsOf more id)
      (publishesOf events id ++ publishesOf more id) stage) :
    CallsInvariant service (Function.update calls id (some ⟨post, stage⟩)) (events ++ more) := by
  -- Nothing is added to what another request did.
  have hother : ∀ other, other ≠ id → claimsOf (events ++ more) other = claimsOf events other ∧
      publishesOf (events ++ more) other = publishesOf events other := by
    intro other hne
    have hids : ∀ event ∈ more, event.id ≠ other :=
      fun event hevent heq => hne (heq.symm.trans (hmore event hevent).1)
    rw [claimsOf_append, publishesOf_append, claimsOf_of_ne hids, publishesOf_of_ne hids,
      List.append_nil, List.append_nil]
    exact ⟨rfl, rfl⟩
  refine ⟨fun other hnone => ?_, fun other call hcall => ?_, fun event hevent => ?_⟩
  · by_cases hne : other = id
    · rw [hne, Function.update_self] at hnone
      cases hnone
    · rw [Function.update_of_ne hne] at hnone
      rw [(hother other hne).1, (hother other hne).2]
      exact h.absent other hnone
  · by_cases hne : other = id
    · rw [hne, Function.update_self] at hcall
      cases hcall
      rw [hne, claimsOf_append, publishesOf_append]
      exact hstage
    · rw [Function.update_of_ne hne] at hcall
      rw [(hother other hne).1, (hother other hne).2]
      exact h.stages other call hcall
  · obtain hold | hnew := List.mem_append.mp hevent
    · obtain ⟨call, hcall, hauth⟩ := h.agents event hold
      by_cases hid : event.id = id
      · refine ⟨⟨post, stage⟩, by rw [hid, Function.update_self], ?_⟩
        rw [hid] at hcall
        exact hpost call hcall ▸ hauth
      · exact ⟨call, by rw [Function.update_of_ne hid]; exact hcall, hauth⟩
    · obtain ⟨hid, hauth⟩ := hmore event hnew
      exact ⟨⟨post, stage⟩, by rw [hid, Function.update_self], hauth⟩

/-- The store is not called. -/
theorem StoreInvariant.idle (h : StoreInvariant service initial dedup events)
    (hmore : ∀ event ∈ more, event.isClaim = false) :
    StoreInvariant service initial dedup (events ++ more) := by
  have hclaims : ∀ id, claimsOf (events ++ more) id = claimsOf events id := by
    intro id
    rw [claimsOf_append, claimsOf_of_not_isClaim hmore, List.append_nil]
  refine ⟨?_, fun t a x hx hseen => ?_, fun id a x hrefused => ?_⟩
  · rw [replay_append, replay_of_not_isClaim service _ hmore]
    exact h.replayed
  · simp only [hclaims]
    exact h.seen t a x hx hseen
  · simp only [hclaims] at hrefused ⊢
    exact h.refused id a x hrefused

/-- A sequence is claimed. -/
theorem StoreInvariant.claim (h : StoreInvariant service initial dedup events) (id : ℕ)
    (call : ClaimCall τ) (hsequence : 0 ≤ call.sequence) :
    let claimed := service.store.claim dedup call.time call.agentId call.sequence call.ttlSeconds
    StoreInvariant service initial claimed.2 (events ++ [.claimed id call claimed.1]) := by
  intro claimed
  have hanswer : claimed.1 = !service.store.hasSeen dedup call.time call.agentId call.sequence :=
    service.store.claim_answer _ _ _ _ _
  have hold : ∀ {p : String × ℤ × Bool} {other : ℕ}, p ∈ claimsOf events other →
      p ∈ claimsOf (events ++ [.claimed id call claimed.1]) other := by
    intro p other hp
    rw [claimsOf_append]
    exact List.mem_append_left _ hp
  have hweaken : ∀ a x, ((∃ t, service.store.hasSeen initial t a x = true) ∨
      ∃ other, (a, x, true) ∈ claimsOf events other) →
      (∃ t, service.store.hasSeen initial t a x = true) ∨
        ∃ other, (a, x, true) ∈ claimsOf (events ++ [.claimed id call claimed.1]) other :=
    fun a x => Or.imp (fun h => h) fun ⟨other, hother⟩ => ⟨other, hold hother⟩
  have hself : (call.agentId, call.sequence, claimed.1) ∈
      claimsOf (events ++ [.claimed id call claimed.1]) id := by
    rw [claimsOf_append, claimsOf_claimed, if_pos rfl]
    exact List.mem_append_right _ (List.mem_singleton.mpr rfl)
  -- A pair that is claimed in vain was seen before.
  have hvain : claimed.1 = false →
      (∃ t, service.store.hasSeen initial t call.agentId call.sequence = true) ∨
        ∃ other, (call.agentId, call.sequence, true) ∈ claimsOf events other := by
    intro hfalse
    have hseen : service.store.hasSeen dedup call.time call.agentId call.sequence = true := by
      rw [hfalse] at hanswer
      simpa using hanswer.symm
    exact h.seen call.time _ _ hsequence hseen
  refine ⟨?_, fun t a x hx hseen => ?_, fun other a x hrefused => ?_⟩
  · rw [replay_append, ← h.replayed]
    rfl
  · obtain ⟨rfl, rfl⟩ | ⟨t', hbefore⟩ :=
      service.store.claim_seen dedup call.time call.agentId call.sequence call.ttlSeconds t a x hx
        hseen
    · cases hclaimed : claimed.1 with
      | true => exact .inr ⟨id, hclaimed ▸ hself⟩
      | false => exact hclaimed ▸ hweaken _ _ (hvain hclaimed)
    · exact hweaken a x (h.seen t' a x hx hbefore)
  · rw [claimsOf_append] at hrefused
    obtain hbefore | hnew := List.mem_append.mp hrefused
    · exact hweaken a x (h.refused other a x hbefore)
    · rw [claimsOf_claimed] at hnew
      split_ifs at hnew
      · have heq := List.mem_singleton.mp hnew
        have hfalse : claimed.1 = false := (congrArg (fun p => p.2.2) heq).symm
        have ha : a = call.agentId := congrArg Prod.fst heq
        have hx : x = call.sequence := congrArg (fun p => p.2.1) heq
        rw [ha, hx]
        exact hweaken _ _ (hvain hfalse)
      · exact absurd hnew List.not_mem_nil

/-- A request takes a step that does not call the store. -/
theorem Invariant.advance {s : Server service.store.State τ} (h : Invariant service initial s)
    (s' : Server service.store.State τ) (hcalls : s'.calls = s.calls)
    (hevents : s'.events = s.events) (hdedup : s'.dedup = s.dedup) {id : ℕ} {post : Post} (hpost : ∀ call, s.calls id = some call → call.post = post)
    (hmore : ∀ event ∈ more, event.isClaim = false ∧ event.id = id ∧
      service.Authenticated post event.agentId)
    {stage : Stage}
    (hstage : StageInvariant service post (claimsOf s.events id)
      (publishesOf s.events id ++ publishesOf more id) stage) :
    Invariant service initial (s'.advance id post stage more) := by
  have hquiet : ∀ event ∈ more, event.isClaim = false := fun event hevent =>
    (hmore event hevent).1
  have hclaims : claimsOf s.events id ++ claimsOf more id = claimsOf s.events id := by
    rw [claimsOf_of_not_isClaim hquiet, List.append_nil]
  constructor
  · show CallsInvariant service (Function.update s'.calls id _) (s'.events ++ more)
    rw [hcalls, hevents]
    exact h.calls.advance hpost (fun event hevent => (hmore event hevent).2)
      (by rw [hclaims]; exact hstage)
  · show StoreInvariant service initial s'.dedup (s'.events ++ more)
    rw [hdedup, hevents]
    exact h.store.idle hquiet

/-- A request takes a step that charges a budget. -/
theorem Invariant.charge {s : Server service.store.State τ} (h : Invariant service initial s)
    {id : ℕ} {post : Post} (hpost : ∀ call, s.calls id = some call → call.post = post)
    {passage : Passage}
    (hcharges : ∀ charge ∈ passage.charges, service.Authenticated post charge.2)
    (hstage : StageInvariant service post (claimsOf s.events id) (publishesOf s.events id)
      passage.stage) :
    Invariant service initial ({ s with budgets := passage.budgets }.advance id post passage.stage
      (passage.charges.map fun charge : Scope × String => .charged id charge.1 charge.2)) := by
  have hnone : publishesOf (passage.charges.map
      fun charge : Scope × String => (.charged id charge.1 charge.2 : Event τ)) id = [] := by
    refine List.filterMap_eq_nil_iff.mpr fun event hevent => ?_
    obtain ⟨charge, -, rfl⟩ := List.mem_map.mp hevent
    rfl
  refine h.advance { s with budgets := passage.budgets } rfl rfl rfl hpost
    (fun event hevent => ?_) (by rwa [hnone, List.append_nil])
  obtain ⟨charge, hcharge, rfl⟩ := List.mem_map.mp hevent
  exact ⟨rfl, rfl, hcharges charge hcharge⟩

/-- A request takes a step that only shows in where it is. -/
theorem Invariant.proceed {s : Server service.store.State τ} (h : Invariant service initial s)
    {id : ℕ} {post : Post} (hpost : ∀ call, s.calls id = some call → call.post = post)
    (log : List Logged) {stage : Stage}
    (hstage : StageInvariant service post (claimsOf s.events id) (publishesOf s.events id) stage) :
    Invariant service initial ({ s with log }.advance id post stage []) :=
  h.advance { s with log } rfl rfl rfl hpost (fun _ hevent => absurd hevent List.not_mem_nil)
    (by rwa [show publishesOf ([] : List (Event τ)) id = [] from rfl, List.append_nil])

/-- Every step keeps the invariant. -/
theorem step_invariant (s : Server service.store.State τ) (action : Action τ)
    (h : Invariant service initial s) : Invariant service initial (step service s action) := by
  have hpost : ∀ id post stage, s.calls id = some ⟨post, stage⟩ →
      ∀ call, s.calls id = some call → call.post = post := by
    intro id post stage hcall call hcall'
    rw [hcall] at hcall'
    cases hcall'
    rfl
  match action with
  | .setReady ready => exact ⟨h.calls, h.store⟩
  | .arrive id post =>
    dsimp only [step]
    split
    · exact h
    · rename_i hnone
      obtain ⟨hcharges, hstage⟩ := service.arrive_spec s.ready s.budgets post
      refine h.charge (fun call hcall => by rw [hnone] at hcall; cases hcall) hcharges ?_
      rw [(h.calls.absent id hnone).1, (h.calls.absent id hnone).2]
      obtain ⟨agentId, heq, hauth⟩ | ⟨response, heq, hrejects⟩ := hstage
      · rw [heq]
        exact ⟨hauth, rfl, rfl⟩
      · rw [heq]
        exact ⟨hrejects, rfl, rfl⟩
  | .body id chunks now =>
    dsimp only [step]
    split
    · rename_i post agentId hcall
      obtain ⟨hauth, hclaims, hpublishes⟩ := h.calls.stages id _ hcall
      obtain ⟨hcharges, hstage⟩ := service.receive_spec s.budgets agentId post chunks now
      refine h.charge (hpost id post _ hcall) (fun charge hcharge => ?_) ?_
      · rw [hcharges charge hcharge]
        exact hauth
      · rw [hclaims, hpublishes]
        obtain ⟨batch, heq, hchecked⟩ | ⟨response, heq, hrejects⟩ := hstage
        · rw [heq]
          exact ⟨hauth, hchecked, rfl, rfl⟩
        · rw [heq]
          exact ⟨hrejects, rfl, rfl⟩
    · exact h
  | .claim id time =>
    dsimp only [step]
    split
    · rename_i post agentId batch hcall
      obtain ⟨hauth, hchecked, hclaims, hpublishes⟩ := h.calls.stages id _ hcall
      obtain rfl : batch.agentId = agentId := hchecked.agentId
      refine ⟨h.calls.advance (hpost id post _ hcall) (fun event hevent => ?_) ?_,
        h.store.claim id ⟨time, batch.agentId, batch.sequence, _⟩ hchecked.sequence.1⟩
      · rw [List.mem_singleton.mp hevent]
        exact ⟨rfl, hauth⟩
      · rw [hclaims, hpublishes, claimsOf_claimed, if_pos rfl]
        exact ⟨⟨hauth, hchecked⟩, rfl, rfl⟩
    · exact h
  | .resume id timestamp =>
    dsimp only [step]
    split
    · rename_i post batch hcall
      exact h.proceed (hpost id post _ hcall) s.log (h.calls.stages id _ hcall)
    · rename_i post batch hcall
      obtain ⟨hpassed, hclaims, hpublishes⟩ := h.calls.stages id _ hcall
      refine h.advance s rfl rfl rfl (hpost id post _ hcall) (fun event hevent => ?_)
        (stageInvariant_of_published service (service.published_beginPublish batch timestamp)
          hpassed hclaims ?_)
      · rw [List.mem_singleton.mp hevent]
        exact ⟨rfl, rfl, hpassed.1⟩
      · rw [hpublishes]
        exact congrArg Option.toList (if_pos rfl)
    · exact h
  | .settle id index now outcome =>
    dsimp only [step]
    split
    · rename_i post batch waiting failed hcall
      split
      · obtain ⟨batch', hstage, hpassed, hclaims, hpublishes⟩ := h.calls.stages id _ hcall
        cases hstage
        exact h.proceed (hpost id post _ hcall) _ (stageInvariant_of_published service
          (Stage.published_gather _ _ _) hpassed hclaims hpublishes)
      · exact h
    · exact h
  | .flush id failed =>
    dsimp only [step]
    split
    · rename_i post batch hcall
      obtain ⟨batch', hstage, hpassed, hclaims, hpublishes⟩ := h.calls.stages id _ hcall
      cases hstage
      refine h.proceed (hpost id post _ hcall) s.log ?_
      cases failed with
      | true => exact stageInvariant_of_published service .failed hpassed hclaims hpublishes
      | false => exact stageInvariant_of_published service .accepted hpassed hclaims hpublishes
    · exact h

theorem start_invariant (ready : Bool) (budgets : Budgets) (initial : service.store.State) :
    Invariant service initial (start ready budgets initial) := by
  refine ⟨⟨fun _ _ => ⟨rfl, rfl⟩, fun _ _ hcall => (by cases hcall), fun _ hevent => absurd hevent List.not_mem_nil⟩,
    rfl, fun t a x _ hseen => .inl ⟨t, hseen⟩, fun _ _ _ hrefused => absurd hrefused
      List.not_mem_nil⟩

/-- Every claim for the pair meets a store that still has it. -/
def Retained (agentId : String) (sequence : ℤ) (s : Server service.store.State τ) :
    Action τ → Prop
  | .claim id time => ∀ post batch, s.calls id = some ⟨post, .claiming agentId batch⟩ →
      batch.sequence = sequence →
      service.store.hasSeen s.dedup time agentId sequence = true
  | _ => True

/-- A step adds its events to those before, and a claim among them is the one that it makes. -/
theorem exists_events (s : Server service.store.State τ) (action : Action τ) :
    ∃ more, (step service s action).events = s.events ++ more ∧
      ∀ id p, p ∈ claimsOf more id → ∃ time post agentId batch, action = .claim id time ∧
        s.calls id = some ⟨post, .claiming agentId batch⟩ ∧
        p = (agentId, batch.sequence,
          !service.store.hasSeen s.dedup time agentId batch.sequence) := by
  -- Events that are no claims add nothing.
  have hquiet : ∀ more : List (Event τ), (∀ event ∈ more, event.isClaim = false) →
      ∀ id p, p ∈ claimsOf more id → ∃ time post agentId batch, action = .claim id time ∧
        s.calls id = some ⟨post, .claiming agentId batch⟩ ∧
        p = (agentId, batch.sequence,
          !service.store.hasSeen s.dedup time agentId batch.sequence) := by
    intro more hmore id p hp
    rw [claimsOf_of_not_isClaim hmore] at hp
    exact absurd hp List.not_mem_nil
  have hcharges : ∀ (id : ℕ) (charges : List (Scope × String)), ∀ event ∈ (charges.map
      fun charge : Scope × String => (.charged id charge.1 charge.2 : Event τ)),
      event.isClaim = false := by
    intro id charges event hevent
    obtain ⟨charge, -, rfl⟩ := List.mem_map.mp hevent
    rfl
  have hnil : ∀ event ∈ ([] : List (Event τ)), event.isClaim = false :=
    fun _ hevent => absurd hevent List.not_mem_nil
  have hsame : ∃ more, s.events = s.events ++ more ∧
      ∀ id p, p ∈ claimsOf more id → ∃ time post agentId batch, action = .claim id time ∧
        s.calls id = some ⟨post, .claiming agentId batch⟩ ∧
        p = (agentId, batch.sequence,
          !service.store.hasSeen s.dedup time agentId batch.sequence) :=
    ⟨[], (List.append_nil _).symm, hquiet [] hnil⟩
  cases action with
  | setReady ready => exact hsame
  | arrive id post =>
    dsimp only [step]
    split
    · exact hsame
    · exact ⟨_, rfl, hquiet _ (hcharges id _)⟩
  | body id chunks now =>
    dsimp only [step]
    split
    · exact ⟨_, rfl, hquiet _ (hcharges id _)⟩
    · exact hsame
  | claim id time =>
    dsimp only [step]
    split
    · rename_i post agentId batch hcall
      refine ⟨_, rfl, fun other p hp => ?_⟩
      rw [claimsOf_claimed] at hp
      split_ifs at hp with hid
      · subst hid
        refine ⟨time, post, agentId, batch, rfl, hcall, ?_⟩
        rw [List.mem_singleton.mp hp, service.store.claim_answer]
      · exact absurd hp List.not_mem_nil
    · exact hsame
  | resume id timestamp =>
    dsimp only [step]
    split
    · exact ⟨[], rfl, hquiet [] hnil⟩
    · refine ⟨_, rfl, hquiet _ fun event hevent => ?_⟩
      rw [List.mem_singleton.mp hevent]
      rfl
    · exact hsame
  | settle id index now outcome =>
    dsimp only [step]
    split
    · split
      · exact ⟨[], rfl, hquiet [] hnil⟩
      · exact hsame
    · exact hsame
  | flush id failed =>
    dsimp only [step]
    split
    · exact ⟨[], rfl, hquiet [] hnil⟩
    · exact hsame

/-- While the store has the pair, every claim of it is refused. -/
theorem refused_of_retained {s : Server service.store.State τ} {agentId : String} {sequence : ℤ}
    {actions : List (Action τ)} (h : Along (step service) (Retained agentId sequence) s actions)
    {id : ℕ} (hnone : claimsOf s.events id = []) {answer : Bool}
    (hclaim : (agentId, sequence, answer) ∈
      claimsOf (actions.foldl (step service) s).events id) : answer = false := by
  refine h.invariant (I := fun s => ∀ answer, (agentId, sequence, answer) ∈ claimsOf s.events id →
    answer = false) (fun s action hs hretained answer hmem => ?_) (fun answer hmem => ?_) answer
    hclaim
  · obtain ⟨more, hevents, hmore⟩ := exists_events s action
    rw [hevents, claimsOf_append] at hmem
    obtain hold | hnew := List.mem_append.mp hmem
    · exact hs answer hold
    · obtain ⟨time, post, agentId', batch, rfl, hcall, heq⟩ := hmore id _ hnew
      simp only [Prod.mk.injEq] at heq
      obtain ⟨rfl, rfl, rfl⟩ := heq
      rw [hretained post batch hcall rfl]
      rfl
  · rw [hnone] at hmem
    exact absurd hmem List.not_mem_nil

end

/-- What a request has done, by how far it has come: nothing at the store, a claim that was refused, or
a claim that succeeded. -/
theorem StageInvariant.cases {post : Post} {claims : List (String × ℤ × Bool)}
    {publishes : List Batch} {stage : Stage}
    (h : StageInvariant service post claims publishes stage) :
    (claims = [] ∧ publishes = [] ∧
      ∀ batch response, stage = .ended batch response → response.Rejects) ∨
    (∃ batch, service.Passed post batch ∧ claims = [(batch.agentId, batch.sequence, false)] ∧
      publishes = [] ∧ (stage = .claimed batch false ∨ stage = .ended (some batch) .duplicate)) ∨
    ∃ batch, service.Passed post batch ∧ claims = [(batch.agentId, batch.sequence, true)] ∧
      (publishes = [] ∧ stage = .claimed batch true ∨
        publishes = [batch] ∧ stage.Published batch) := by
  match stage with
  | .reading agentId => exact .inl ⟨h.2.1, h.2.2, fun _ _ heq => (by cases heq)⟩
  | .claiming agentId batch => exact .inl ⟨h.2.2.1, h.2.2.2, fun _ _ heq => (by cases heq)⟩
  | .claimed batch false => exact .inr (.inl ⟨batch, h.1, h.2.1, h.2.2, .inl rfl⟩)
  | .claimed batch true => exact .inr (.inr ⟨batch, h.1, h.2.1, .inl ⟨h.2.2, rfl⟩⟩)
  | .ended none response =>
    refine .inl ⟨h.2.1, h.2.2, fun batch response' heq => ?_⟩
    cases heq
    exact h.1
  | .ended (some batch) .duplicate => exact .inr (.inl ⟨batch, h.1, h.2.1, h.2.2, .inr rfl⟩)
  | .publishing batch waiting failed
  | .flushing batch
  | .ended (some batch) .notReady
  | .ended (some batch) (.throttled _ _)
  | .ended (some batch) (.refused _ _)
  | .ended (some batch) .internalError
  | .ended (some batch) .accepted
  | .ended (some batch) .publishFailed =>
    obtain ⟨batch', hstage, hpassed, hclaims, hpublishes⟩ := h
    exact .inr (.inr ⟨batch', hpassed, hclaims, .inr ⟨hpublishes, hstage⟩⟩)

/-- A request is told that it is a duplicate of a pair that the store had at the start, or that another
request has claimed. -/
theorem Invariant.exists_claim {initial : service.store.State} {s : Server service.store.State τ}
    (h : Invariant service initial s) {id : ℕ} {post : Post} {batch : Batch}
    (htold : s.calls id = some ⟨post, .claimed batch false⟩ ∨
      s.calls id = some ⟨post, .ended (some batch) .duplicate⟩) :
    (∃ t, service.store.hasSeen initial t batch.agentId batch.sequence = true) ∨
      ∃ other ≠ id, (batch.agentId, batch.sequence, true) ∈ claimsOf s.events other := by
  have hclaims : claimsOf s.events id = [(batch.agentId, batch.sequence, false)] := by
    obtain hcall | hcall := htold
    · exact (h.calls.stages id _ hcall).2.1
    · exact (h.calls.stages id _ hcall).2.1
  have hrefused : (batch.agentId, batch.sequence, false) ∈ claimsOf s.events id := by
    rw [hclaims]
    exact List.mem_singleton.mpr rfl
  obtain hold | ⟨other, hother⟩ := h.store.refused id _ _ hrefused
  · exact .inl hold
  · refine .inr ⟨other, fun heq => ?_, hother⟩
    rw [heq, hclaims] at hother
    cases List.mem_singleton.mp hother

/-- Any number of requests in any order of their steps.

A request that is answered with something other than 200, 202 or the 503 of a failed publish has not
called the dedup store, whose state is what the claims made of it; and a request is told that it is a
duplicate only of a claim that another made, or that the store had at the start. A request publishes
only after its claim succeeded, and while the store has a pair, every request that claims it is
refused, does not publish and is answered 200. Budgets, claims and envelopes are always those of the
authenticated agent. -/
theorem ingest_claims (ready : Bool) (budgets : Budgets) (initial : service.store.State)
    (actions : List (Action τ)) :
    let s := actions.foldl (step service) (start ready budgets initial)
    (s.dedup = replay service initial s.events ∧
      (∀ id post batch response, s.calls id = some ⟨post, .ended batch response⟩ →
        response.status ≠ 200 → response.status ≠ 202 → response ≠ .publishFailed →
        claimsOf s.events id = []) ∧
      ∀ id post batch, s.calls id = some ⟨post, .claimed batch false⟩ ∨
          s.calls id = some ⟨post, .ended (some batch) .duplicate⟩ →
        (∃ t, service.store.hasSeen initial t batch.agentId batch.sequence = true) ∨
          ∃ other ≠ id, (batch.agentId, batch.sequence, true) ∈ claimsOf s.events other) ∧
    ((∀ id batch, batch ∈ publishesOf s.events id →
        claimsOf s.events id = [(batch.agentId, batch.sequence, true)]) ∧
      ∀ agentId sequence more, Along (step service) (Retained agentId sequence) s more →
        ∀ id, claimsOf s.events id = [] → ∀ answer,
          (agentId, sequence, answer) ∈ claimsOf (more.foldl (step service) s).events id →
          answer = false ∧ publishesOf (more.foldl (step service) s).events id = [] ∧
          ∃ post batch, (more.foldl (step service) s).calls id =
              some ⟨post, .claimed batch false⟩ ∨
            (more.foldl (step service) s).calls id = some ⟨post, .ended (some batch) .duplicate⟩) ∧
    ∀ event ∈ s.events, ∃ call, s.calls event.id = some call ∧
      service.Authenticated call.post event.agentId ∧
      ∀ batch, event = .published event.id batch → ∀ entry timestamp,
        (service.publisher.envelope batch entry timestamp).agentId =
          .plain (Text.ofString event.agentId) := by
  intro s
  have h : Invariant service initial s :=
    invariant_foldl (fun s action hs => step_invariant s action hs)
      (start_invariant ready budgets initial) actions
  refine ⟨⟨h.store.replayed, fun id post batch response hcall hok haccepted hfailed => ?_,
    fun id post batch htold => h.exists_claim service htold⟩, ⟨fun id batch hpublished => ?_,
      fun agentId sequence more hretained id hnone answer hclaim => ?_⟩,
    fun event hevent => ?_⟩
  -- The other answers are given before the claim.
  · obtain ⟨hclaims, -⟩ | ⟨batch', -, -, -, hstage⟩ | ⟨batch', -, -, hstage⟩ :=
      (h.calls.stages id _ hcall).cases
    · exact hclaims
    · obtain heq | heq := hstage
      · cases heq
      · cases heq
        exact absurd rfl hok
    · obtain ⟨-, heq⟩ | ⟨-, hpublished⟩ := hstage
      · cases heq
      · cases hpublished with
        | failed => exact absurd rfl hfailed
        | accepted => exact absurd rfl haccepted
  -- A request that publishes is one whose claim succeeded.
  · cases hcall : s.calls id with
    | none =>
      rw [(h.calls.absent id hcall).2] at hpublished
      exact absurd hpublished List.not_mem_nil
    | some call =>
      obtain ⟨-, hnone, -⟩ | ⟨batch', -, -, hnone, -⟩ | ⟨batch', -, hclaims, hstage⟩ :=
        (h.calls.stages id _ hcall).cases
      · rw [hnone] at hpublished
        exact absurd hpublished List.not_mem_nil
      · rw [hnone] at hpublished
        exact absurd hpublished List.not_mem_nil
      · obtain ⟨hnone, -⟩ | ⟨heq, -⟩ := hstage
        · rw [hnone] at hpublished
          exact absurd hpublished List.not_mem_nil
        · rw [heq] at hpublished
          rw [List.mem_singleton.mp hpublished]
          exact hclaims
  -- A claim that meets a store with the pair is refused, and its request ends there.
  · have hfalse := refused_of_retained hretained hnone hclaim
    rw [hfalse] at hclaim
    have h' : Invariant service initial (more.foldl (step service) s) :=
      invariant_foldl (fun s action hs => step_invariant s action hs) h more
    cases hcall : (more.foldl (step service) s).calls id with
    | none =>
      rw [(h'.calls.absent id hcall).1] at hclaim
      exact absurd hclaim List.not_mem_nil
    | some call =>
      obtain ⟨hnone, -⟩ | ⟨batch, -, -, hpublishes, hstage⟩ | ⟨batch, -, hclaims, -⟩ :=
        (h'.calls.stages id _ hcall).cases
      · rw [hnone] at hclaim
        exact absurd hclaim List.not_mem_nil
      · refine ⟨hfalse, hpublishes, call.post, batch, hstage.imp (fun heq => ?_) fun heq => ?_⟩
        · rw [← heq]
        · rw [← heq]
      · rw [hclaims] at hclaim
        cases List.mem_singleton.mp hclaim
  · obtain ⟨call, hcall, hauth⟩ := h.calls.agents event hevent
    refine ⟨call, hcall, hauth, fun batch heq entry timestamp => ?_⟩
    rw [heq]
    rfl

/-- The request of one address. -/
def sampleRequest : ObservationRequest where
  agentId := "edge-17"
  sequence := 1
  windowStart := "2026-01-01T00:00:00Z"
  windowSeconds := 60
  observations := [⟨"0.0.0.1", 5, by decide⟩]
  agentId_length := by decide
  sequence_range := by decide
  windowSeconds_range := by decide
  observations_length := by decide

/-- Its text. -/
def sampleBody : String :=
  "\x7b\"agent_id\":\"edge-17\",\"sequence\":1,\"window_start\":\"2026-01-01T00:00:00Z\"," ++
    "\"window_seconds\":60,\"observations\":[\x7b\"ip\":\"0.0.0.1\",\"request_count\":5\x7d]\x7d"

/-- A service with one agent over the store in memory, whose parsers know the request. -/
noncomputable def sampleService : Service (ℕ → ℤ) where
  library := Codec.interpreter
  primitives := ⟨fun _ => [], fun _ => 0, fun _ => none, fun ip => Codec.addressText ip.address⟩
  parsers :=
    { repr := fun text => "'" ++ text ++ "'"
      int := fun _ => none
      loads := fun body =>
        match Codec.interpreter.loads body with
        | some document => .ok document
        | none => .error (.valueError "Expecting value: line 1 column 1 (char 0)")
      validate := fun _ => none
      modelValidate := fun _ => .ok sampleRequest
      fromisoformat := fun _ => some ⟨63902822400000000, some 0, by decide⟩
      isoformat := fun _ => "2026-01-01T00:00:00+00:00"
      timestamp := fun value => (value.wall - 62135596800000000) / 1000000
      parseAddress := fun _ => .ok ⟨.ipv4, 1, one_lt_ipv4_width⟩ }
  authSettings :=
    { defaultAuthSettings with
      authFailureRatePerMin := 10
      authFailureAgentRatePerMin := 10
      authFailureAgentBurst := 10
      agentSlotCount := 16
      authFailureRatePerMin_pos := by norm_num
      authFailureAgentRatePerMin_pos := by norm_num
      authFailureAgentBurst_pos := defaultAuthSettings.authFailureBurst_pos
      agentSlotCount_pos := by norm_num }
  registry := Dict.empty.set "edge-17" ⟨"edge-17", [], none, true, none⟩
  settings := ⟨1000000, 10000, 50, 20000, 10000⟩
  bucketSeconds := 10
  publisher := samplePublisher
  dedup := ⟨30⟩
  store := .memory
  duplicateWindow := some 120

/-- Its limiters, without a bucket. -/
def sampleBudgets : Budgets where
  auth := ⟨.empty 10 (by decide), .empty 17 (by decide)⟩
  requests := .empty 10 (by decide)
  observations := .empty 10 (by decide)

/-- Its dedup store, which has seen nothing. -/
def emptyStore : MemoryDedupStore.Sound :=
  ⟨⟨10, .empty, .empty, []⟩, fun _ => iff_of_true rfl rfl⟩

theorem not_seen_emptyStore (t : ℕ → ℤ) (agentId : String) (sequence : ℤ) :
    ¬ DedupStore.memory.hasSeen emptyStore t agentId sequence = true := by
  intro hseen
  have hseen : MemoryDedupStore.seen emptyStore t agentId sequence = true := hseen
  obtain ⟨w, hw, -⟩ := MemoryDedupStore.remembers_of_seen hseen
  cases (show (Dict.empty : Dict String SequenceWindow).get? agentId = some w from hw)

def samplePost : Post := ⟨⟨some "edge-17", some "Bearer secret", [], none, 0, 0, 0⟩, none, 0⟩

def sampleTime : Codec.DateTime := ⟨63902822400000000, some 0, by decide⟩

/-- The request twice: the second is answered while the first has not yet begun to publish. -/
def twice : List (Action (ℕ → ℤ)) :=
  [.arrive 0 samplePost, .body 0 [utf8 sampleBody] 0, .arrive 1 samplePost, .claim 0 fun _ => 0,
    .body 1 [utf8 sampleBody] 0, .claim 1 fun _ => 1, .resume 1 sampleTime]

/-- The request was answered 200. -/
def answeredDuplicate (call : Call) : Bool :=
  match call.stage with
  | .ended (some _) .duplicate => true
  | _ => false

theorem exists_of_answeredDuplicate {call : Option Call} (h : call.any answeredDuplicate = true) :
    ∃ post batch, call = some ⟨post, .ended (some batch) .duplicate⟩ := by
  obtain ⟨⟨post, stage⟩, rfl, hstage⟩ := (Option.any_eq_true _ _).mp h
  unfold answeredDuplicate at hstage
  split at hstage
  · rename_i batch heq
    exact ⟨post, batch, congrArg (fun stage => some (Call.mk post stage)) heq⟩
  · cases hstage

theorem ingest_claims_twice :
    let s := twice.foldl (step sampleService) (start true sampleBudgets emptyStore)
    ∃ post batch, s.calls 1 = some ⟨post, .ended (some batch) .duplicate⟩ ∧
      ∃ other ≠ 1, (batch.agentId, batch.sequence, true) ∈ claimsOf s.events other := by
  have hended : ((twice.foldl (step sampleService)
      (start true sampleBudgets emptyStore)).calls 1).any answeredDuplicate = true := by
    decide +kernel
  have hall := ingest_claims sampleService true sampleBudgets emptyStore twice
  revert hended hall
  generalize twice.foldl (step sampleService) (start true sampleBudgets emptyStore) = s
  intro hended hall
  obtain ⟨post, batch, hcall⟩ := exists_of_answeredDuplicate hended
  obtain ⟨⟨-, -, htold⟩, -⟩ := hall
  obtain ⟨t, hseen⟩ | hother := htold 1 post batch (.inr hcall)
  · exact absurd hseen (not_seen_emptyStore t _ _)
  · exact ⟨post, batch, hcall, hother⟩

end Hammertime.Ingest
