import EquityEval.Transport.Sec

/-!
# The provider transport

`ProviderTransport.fetch` makes up to three attempts like the SEC transport, but one block covers an attempt from
its permit to the pause after an error, and its handlers finish the attempt. Redirects are not followed, and only
responses that are errors are tried again.
-/

namespace EquityEval.Transport

open FloatArithmetic Interaction
open Workflow (Uuid Instant isSha256 seconds)
open Interaction.Action (read assign raise ofExcept)

/-- `ProviderKind`. -/
inductive ProviderKind where
  | treasury
  | tiingo
  | fred
deriving DecidableEq, Repr

/-- A provider's resource, with its properties. -/
structure ProviderResource where
  provider : ProviderKind
  url : String
  objectKey : String
  params : List (String × String)
  paramsHash : String
deriving DecidableEq, Repr

/-- `ProviderFetchRequest`. -/
structure ProviderFetchRequest where
  resource : ProviderResource
  leaseExpiresAt : Option Instant
  cacheMode : CacheMode
  cachedRecord : Option RawRecord
  replayRecords : List RawRecord
  leased : cacheMode ≠ .replay → leaseExpiresAt.isSome
  replayed : replayRecords ≠ [] → cacheMode = .replay
  pinned : cacheMode = .replay → cachedRecord = none
  belongs : ∀ record ∈ replayRecords ++ cachedRecord.toList, record.sourceObjectKey = resource.objectKey ∧
    record.requestUrl = resource.url ∧ record.requestParamsHash = resource.paramsHash

/-- `ProviderDescriptor`; of its quota the transport reads whether there is one. -/
structure ProviderDescriptor where
  sourceId : Uuid
  sourceKey : String
  policyRevisionId : Uuid
  termsReviewReference : String
  provider : ProviderKind
  freshnessSla : ℤ
  quota : Bool

/-- `PROVIDER_BODY_LIMIT`. -/
def providerBodyLimit : ℕ := 32 * 1024 * 1024

/-- `ProviderTransport`: its configuration. -/
structure ProviderTransport where
  descriptor : ProviderDescriptor
  apiKey : Option String
  configuredLimit : ℕ
  library : Library
  limited : 1 ≤ configuredLimit ∧ configuredLimit ≤ providerBodyLimit

/-- The exceptions that the last handler of an attempt catches. -/
def Fault.transfer (e : Fault) : Bool := e.isArchiveError ∨ e.isOSError ∨ e = .transportError

namespace ProviderTransport

variable (t : ProviderTransport) (request : ProviderFetchRequest)

/-- `self.body_limit`. -/
def bodyLimit : ℕ := if t.descriptor.provider = .treasury then min t.configuredLimit (8 * 1024 * 1024) else t.configuredLimit

/-- The credential, unless it is empty. -/
def key : Option String := t.apiKey.filter (· ≠ "")

/-- `_verify`, with `read_verified`. -/
def verify (record : RawRecord) : Fetching Unit := do
  if record.requestUrl ≠ request.resource.url ∨ record.requestParamsHash ≠ request.resource.paramsHash ∨
      record.sourceObjectKey ≠ request.resource.objectKey ∨ record.sourceId ≠ t.descriptor.sourceId then
    raise .archiveError
  else
    ask (.validateRecord record)
    ask (.readBlob record.blobKey record.bodySha256 record.byteCount)

/-- `_header`. -/
def header (response : Response) (name : String) : Except Fault (Option String) :=
  match response.header name with
  | none => .ok none
  | some value =>
    if t.key.any fun key => decide (key.toList <:+: value.toList) then .error .reflectedSecret
    else if 4096 < value.utf8ByteSize ∨ value.toList.any fun c => c.toNat < 32 then .error .contentDecodingError
    else .ok (some value)

/-- The header fields that are kept; the target of a redirect is not. -/
def evidence (response : Response) : Except Fault ResponseHeaders := do
  let contentType ← t.header response "content-type"
  let contentEncoding ← t.header response "content-encoding"
  let etag ← t.header response "etag"
  let lastModified ← t.header response "last-modified"
  let retryAfter ← t.header response "retry-after"
  return ⟨contentType, contentEncoding, etag, lastModified, retryAfter, none⟩

/-- The request of an attempt, if the HTTP library accepts it. -/
def httpRequest (validator : Option RawRecord) (timeout : ℚ) : Except Fault HttpRequest :=
  let conditions := match validator with
    | none => []
    | some record =>
      (record.etag.filter (· ≠ "")).toList.map (Prod.mk "If-None-Match") ++
        (record.lastModified.filter (· ≠ "")).toList.map (Prod.mk "If-Modified-Since")
  let authorization := if t.descriptor.provider = .tiingo then [("Authorization", "Token " ++ t.apiKey.getD "None")] else []
  let credential := if t.descriptor.provider = .fred then t.apiKey.toList.map (Prod.mk "api_key") else []
  let http : HttpRequest :=
    { url := request.resource.url
      params := request.resource.params ++ credential
      headers := [("User-Agent", "EquityEval/0.1"), ("Accept-Encoding", "gzip, deflate")] ++ authorization ++ conditions
      timeout := min 30 timeout
      connect := min 10 timeout }
  if t.library.builds http then .ok http else .error .valueError

/-- The validator that a response 304 stands for, once it is verified. -/
def verifiedValidator (limit : ℚ) : Fetching RawRecord := do
  let v ← read
  match v.validator with
  | none => raise .archiveError
  | some record =>
    t.verify request record
    checkDeadline limit
    return record

/-- A response 304. -/
def notModified (identifier : Uuid) (limit : ℚ) : Fetching Turn := do
  match ← (t.verifiedValidator request limit).outcome with
  | .error e =>
    if e.isArchiveError ∨ e.isPermissionError then
      failed identifier .transportError (some 304) .invalidNotModified
      assign fun v => { v with validator := none }
      return .continued
    else raise e
  | .ok record =>
    let instant : Instant ← ask .now
    finished { attemptId := identifier, outcome := .notModified, finishedAt := instant, reused := some record.captureId } (some 304) none
    let v ← read
    return .returned { records := v.records ++ [record], attempts := v.outcomes, reusedCaptureIds := [record.captureId] }

/-- The declared length of a body. -/
def contentLength (response : Response) : Except Fault (Option ℕ) :=
  match response.header "content-length" with
  | none => .ok none
  | some text =>
    if allDigits text.toList ∧ text.length ≤ 20 then .ok (some (Nat.ofDigitChars 10 text.toList 0)) else .error .transferIncomplete

/-- Pause after a response that asks for it. -/
def coolDown (deadline : ℚ) (status : ℕ) (delay : ℚ) : Fetching (Option Turn) := do
  if status = 403 ∨ status = 429 ∨ delay ≠ 0 then
    let delay := max (if status = 403 then 600 else 1) delay
    let eligible : Instant ← ask (.cooldown (some delay))
    if status = 403 then return some (.returned (← incomplete .sourceAccessDeferred (some eligible)))
    else
      let reading : ℚ ← ask .monotonic
      if deadline ≤ plus reading delay then return some (.returned (← incomplete .sourceAccessDeferred (some eligible)))
      else return none
  else return none

/-- A response that is an error. -/
def refused (deadline : ℚ) (status : ℕ) (retryAfter : Option String) : Fetching Turn := do
  let instant : Instant ← ask .now
  match retryAfterSeconds t.library.parsedate retryAfter instant with
  | none =>
    let _eligible : Instant ← ask (.cooldown none)
    return .returned (← incomplete .retryAfterRequiresReview)
  | some delay =>
    match ← coolDown deadline status delay with
    | some turn => return turn
    | none => if retried status then return .retried else return .returned (← incomplete .httpError)

/-- The outcome of an attempt whose response was archived. -/
def outcomeOf (status : ℕ) : Outcome :=
  if 200 ≤ status ∧ status < 300 then .complete
  else if 300 ≤ status ∧ status < 400 then .redirectRefused
  else .httpError

/-- Finish an attempt with its capture. -/
def conclude (deadline : ℚ) (identifier : Uuid) (capture : RawRecord) (retryAfter : Option String) : Fetching Turn := do
  let status := capture.httpStatus
  finished
    { attemptId := identifier
      outcome := outcomeOf status
      finishedAt := capture.completedAt
      capture := some capture
      failure := if outcomeOf status = .redirectRefused then some .redirectRefused else none }
    (some status) none
  assign fun v => { v with records := v.records ++ [capture] }
  match outcomeOf status with
  | .complete =>
    let v ← read
    return .returned { records := v.records, attempts := v.outcomes }
  | .redirectRefused => return .returned (← incomplete .redirectRefused)
  | _ => t.refused deadline status retryAfter

/-- The record of a capture. -/
def captureRecord (captureId : Uuid) (requestedAt instant : Instant) (status : ℕ) (body : ArchivedBody) (fields : ResponseHeaders) :
    RawRecord where
  captureId := captureId
  sourceId := t.descriptor.sourceId
  sourceObjectKey := request.resource.objectKey
  requestUrl := request.resource.url
  requestParamsHash := request.resource.paramsHash
  requestedAt := requestedAt
  fetchedAt := instant
  completedAt := instant
  httpStatus := status
  bodySha256 := body.bodySha256
  byteCount := body.byteCount
  blobKey := body.blobKey
  contentType := fields.contentType
  policyRevisionId := t.descriptor.policyRevisionId
  termsReviewReference := t.descriptor.termsReviewReference
  etag := fields.etag
  lastModified := fields.lastModified

/-- What the body of a response is archived as. -/
def writeRequest (captureId : Uuid) (receivedAt : Instant) (limit : ℚ) (fields : ResponseHeaders) (length : Option ℕ) : WriteRequest where
  sourceKey := t.descriptor.sourceKey
  sourceObjectKey := request.resource.objectKey
  paramsHash := request.resource.paramsHash
  captureId := captureId
  retrievedAt := receivedAt
  maxBytes := t.bodyLimit
  contentEncoding := fields.contentEncoding
  expectedWireBytes := length
  deadline := limit
  secret := t.key

/-- Archive a response and finish its attempt. -/
def capture (deadline limit : ℚ) (identifier : Uuid) (requestedAt receivedAt : Instant) (response : Response) (fields : ResponseHeaders) :
    Fetching Turn := do
  let length ← ofExcept (contentLength response)
  let captureId : Uuid ← ask .uuid4
  let body : ArchivedBody ← ask (.write (t.writeRequest request captureId receivedAt limit fields length))
  checkDeadline limit
  let instant : Instant ← ask .now
  let record ← ofExcept (t.captureRecord request captureId requestedAt instant response.status body fields).make
  t.conclude deadline identifier record fields.retryAfter

/-- What is made of a response, up to its body being closed. -/
def receive (deadline limit : ℚ) (identifier : Uuid) (requestedAt : Instant) (response : Response) : Fetching Turn := do
  assign fun v => { v with currentStatus := some response.status }
  let receivedAt : Instant ← ask .now
  let fields ← ofExcept (t.evidence response)
  ask (.headers identifier receivedAt response.status fields)
  checkDeadline limit
  if response.status = 304 then t.notModified request identifier limit
  else t.capture request deadline limit identifier requestedAt receivedAt response fields

/-- The block of an attempt: from its permit to what follows its response. -/
def block (deadline : ℚ) (identifier : Uuid) : Fetching Turn := do
  let permit : String ← ask (.acquire deadline)
  ask .guard
  let requestedAt : Instant ← ask .now
  ask (.dispatched identifier requestedAt)
  let started : ℚ ← ask .monotonic
  let limit := min deadline (plus started 120)
  checkDeadline limit
  if t.descriptor.provider = .fred ∧ t.apiKey = none then raise .assertionError
  else
    let reading : ℚ ← ask .monotonic
    let timeout := max (binary64 (1 / 1000)) (binary64 (limit - reading))
    let v ← read
    let http ← ofExcept (t.httpRequest request v.validator timeout)
    let _confirmedAt : Instant ← ask (.confirm permit)
    let response : Response ← ask (.send http)
    closing (t.receive request deadline limit identifier requestedAt response)

/-- The outcome and the reason of an exception that ends a transfer. -/
def transferReason (e : Fault) : Outcome × Reason :=
  if e = .reflectedSecret then (.archiveError, .unsafeReflectedSecret)
  else if e = .bodyLimitExceeded then (.bodyLimit, .bodyLimit)
  else if e = .transferIncomplete ∨ e = .transportError then (.transportError, .transferIncomplete)
  else if e = .dispatchDeadline then (.transportError, .dispatchDeadline)
  else (.archiveError, .archiveError)

/-- The handlers of the block: each finishes the attempt. -/
def handle (identifier : Uuid) (e : Fault) : Fetching Turn := do
  let v ← read
  match e.limiterReason with
  | some reason =>
    failed identifier .cancelled v.currentStatus reason
    return .returned (← incomplete reason e.nextEligibleAt)
  | none =>
    if e.isPermissionError then
      failed identifier .cancelled v.currentStatus .sourcePolicyUnavailable
      return .returned (← incomplete .sourcePolicyUnavailable)
    else if e.transfer then
      failed identifier (transferReason e).1 v.currentStatus (transferReason e).2
      return .returned (← incomplete (transferReason e).2)
    else raise e

/-- One attempt. -/
def attempt (deadline : ℚ) (sequence : ℕ) : Fetching Turn := do
  let v ← read
  let identifier : Uuid ← ask (.prepare sequence request.resource.url v.validator)
  assign fun v => { v with currentStatus := none }
  match ← (t.block request deadline identifier).outcome with
  | .ok turn => return turn
  | .error e => handle identifier e

/-- The attempts of a list of numbers, with a pause after one that may be tried again. -/
def attempts (deadline : ℚ) : List ℕ → Fetching FetchResult
  | [] => incomplete .dispatchBudgetExhausted
  | sequence :: rest => do
    match ← t.attempt request deadline sequence with
    | .returned result => return result
    | .continued => attempts deadline rest
    | .retried =>
      if sequence < 3 then
        let delay : ℚ := 2 ^ (sequence - 1)
        let reading : ℚ ← ask .monotonic
        if deadline ≤ plus reading delay then incomplete .dispatchBudgetExhausted
        else
          ask (.sleep delay)
          attempts deadline rest
      else attempts deadline rest

/-- The cached record, if it is verified and successful. -/
def verifiedCache : Fetching (Option RawRecord) :=
  match request.cachedRecord with
  | none => return none
  | some record => do
    match ← (t.verify request record).outcome with
    | .ok _ => return if record.successful then some record else none
    | .error e => if e.isArchiveError ∨ e.isPermissionError then return none else raise e

/-- The attempts of a fetch, unless its mode lets it reuse a cached record that is fresh. -/
def guarded (cached : Option RawRecord) (deadline : ℚ) : Fetching FetchResult := do
  ask .guard
  match if request.cacheMode = .reuse then cached else none with
  | some record =>
    let instant : Instant ← ask .now
    if instant - record.fetchedAt ≤ t.descriptor.freshnessSla then
      return { records := [record], reusedCaptureIds := [record.captureId] }
    else t.attempts request deadline [1, 2, 3]
  | none => t.attempts request deadline [1, 2, 3]

/-- Verify each of a list of records. -/
def verifyAll : List RawRecord → Fetching Unit
  | [] => return ()
  | record :: rest => do
    t.verify request record
    verifyAll rest

/-- A fetch that replays pinned records. -/
def replay : Fetching FetchResult := do
  match ← (t.verifyAll request request.replayRecords).outcome with
  | .error e =>
    if e.isArchiveError ∨ e.isPermissionError then return { gaps := [.archiveIntegrity], completeness := .incomplete } else raise e
  | .ok _ =>
    if request.replayRecords = [] ∨ ¬ request.replayRecords.all RawRecord.successful then
      return { records := request.replayRecords, gaps := [.captureUnavailable] }
    else return { records := request.replayRecords, reusedCaptureIds := request.replayRecords.map RawRecord.captureId }

/-- A live fetch: what the store raises between attempts ends it with what it has. -/
def live (leaseExpiresAt : Instant) : Fetching FetchResult := do
  let cached ← t.verifiedCache request
  let reading : ℚ ← ask .monotonic
  let instant : Instant ← ask .now
  let deadline := plus reading (min 360 (max 0 (totalSeconds (leaseExpiresAt - instant))))
  assign fun v => { v with validator := (if request.cacheMode = .conditional then cached else none).filter RawRecord.conditional }
  match ← (t.guarded request cached deadline).outcome with
  | .ok result => return result
  | .error .leaseLost => incomplete .leaseLost
  | .error .providerBudgetExceeded => incomplete .providerBudgetExhausted
  | .error e => if e.isPermissionError then incomplete .sourcePolicyUnavailable else raise e

/-- `ProviderTransport.fetch`. -/
def fetch : Fetching FetchResult := do
  if request.resource.provider ≠ t.descriptor.provider then raise .valueError
  else if request.cacheMode = .replay then t.replay request
  else if t.descriptor.provider ≠ .treasury ∧ t.key = none then
    return { gaps := [.credentialsMissing], completeness := .incomplete }
  else if t.descriptor.provider = .tiingo ∧ t.descriptor.quota = false then
    return { gaps := [.accountQuotaUnreviewed], completeness := .incomplete }
  else
    match request.leaseExpiresAt with
    | none => raise .assertionError
    | some leaseExpiresAt => t.live request leaseExpiresAt

/-- The program of a fetch, from its variables before the first statement. -/
def program : Program (Answered Fault Value) (Except Fault FetchResult × Locals) :=
  t.fetch request { url := request.resource.url, validator := none }

end ProviderTransport

end EquityEval.Transport
