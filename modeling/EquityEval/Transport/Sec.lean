import EquityEval.Transport.Calls

/-!
# The SEC transport

`SecTransport.fetch` makes up to three attempts. An attempt is prepared, takes a permit, is marked dispatched
and confirms the permit just before its request is sent; what comes back is archived, and the attempt is
finished. Exceptions are caught where the source catches them. The URL and date functions of the standard
library and the HTTP library's own checks of a request are parameters.
-/

namespace EquityEval.Transport

open FloatArithmetic Interaction
open Workflow (Uuid Instant isSha256 seconds)
open Interaction.Action (read assign raise ofExcept)

/-- `ResourceKind`. -/
inductive ResourceKind where
  | companyFacts
  | submissions
  | submissionsHistory
  | filingDocument
deriving DecidableEq, Repr

/-- `SecResource`, with its properties. -/
structure SecResource where
  kind : ResourceKind
  url : String
  objectKey : String
  paramsHash : String
deriving DecidableEq, Repr

/-- `FetchRequest`. -/
structure FetchRequest where
  resource : SecResource
  leaseExpiresAt : Option Instant
  cacheMode : CacheMode
  cachedRecord : Option RawRecord
  replayRecords : List RawRecord
  monitorPayload : Bool
  monitored : monitorPayload → cacheMode = .refresh ∨ cacheMode = .conditional
  leased : cacheMode ≠ .replay → leaseExpiresAt.isSome
  replayed : replayRecords ≠ [] → cacheMode = .replay
  pinned : cacheMode = .replay → cachedRecord = none
  belongs : ∀ record ∈ replayRecords ++ cachedRecord.toList,
    record.sourceObjectKey = resource.objectKey ∧ record.requestParamsHash = resource.paramsHash

/-- `SourceDescriptor`. -/
structure SourceDescriptor where
  sourceId : Uuid
  sourceKey : String
  policyRevisionId : Uuid
  termsReviewReference : String
  resourceKinds : List ResourceKind
  freshnessSla : ℤ

/-- The parts of a URL. -/
structure SplitResult where
  scheme : String
  netloc : String
  path : String
  query : String
  fragment : String
  username : Option String
  password : Option String

/-- What other libraries answer: `none` stands for a `ValueError`; `builds` says whether the HTTP library accepts a request. -/
structure Library where
  urlsplit : String → Option SplitResult
  urljoin : String → String → Option String
  parsedate : String → Option ParsedDate
  builds : HttpRequest → Bool

/-- `SecTransport`: its configuration. -/
structure SecTransport where
  descriptor : SourceDescriptor
  userAgent : String
  jsonBodyLimit : ℕ
  documentBodyLimit : ℕ
  library : Library

-- decide over the characters of the text, also where all characters can be gone through
local instance (priority := 2000) decidableEach {α : Type} (p : α → Prop) [DecidablePred p] (l : List α) :
    Decidable (∀ x ∈ l, p x) :=
  List.decidableBAll p l

/-- `validate_redirect`. -/
def validateRedirect (library : Library) (resource : SecResource) (currentUrl location : String) : Option String := do
  guard (location ≠ "" ∧ location.length ≤ 2048 ∧ ∀ c ∈ location.toList, 32 < c.toNat ∧ c ≠ '%' ∧ c ≠ '\\')
  let split ← library.urlsplit location
  guard (".." ∉ split.path.splitOn "/")
  let target ← library.urljoin currentUrl location
  let parsed ← library.urlsplit target
  let approved ← library.urlsplit resource.url
  guard (parsed.scheme = "https" ∧ parsed.netloc = approved.netloc ∧ parsed.username = none ∧ parsed.password = none ∧
    parsed.query = "" ∧ parsed.fragment = "" ∧ '%' ∉ parsed.path.toList ∧ target = resource.url)
  return target

/-- `_header`. -/
def header (response : Response) (name : String) : Except Fault (Option String) :=
  match response.header name with
  | none => .ok none
  | some value =>
    if 4096 < value.utf8ByteSize ∨ value.toList.any fun c => c.toNat < 32 then .error .contentDecodingError else .ok (some value)

/-- A result that is incomplete for a reason: what there is so far. -/
def incomplete (reason : Reason) (nextEligibleAt : Option Instant := none) : Fetching FetchResult := do
  let v ← read
  return { records := v.records, attempts := v.outcomes, gaps := [reason], completeness := .incomplete, nextEligibleAt := nextEligibleAt }

/-- Finish an attempt and add its outcome. -/
def finished (arguments : Finish) (status : Option ℕ) (reason : Option Reason) : Fetching Unit := do
  ask (.finish arguments)
  assign fun v => { v with outcomes := v.outcomes ++ [⟨arguments.attemptId, arguments.outcome, status, reason⟩] }

/-- Finish an attempt without a capture, at the time of the wall clock. -/
def failed (attemptId : Uuid) (outcome : Outcome) (status : Option ℕ) (failure : Reason) : Fetching Unit := do
  let instant : Instant ← ask .now
  finished { attemptId := attemptId, outcome := outcome, finishedAt := instant, failure := some failure } status (some failure)

/-- The reason of an exception of the limiter. -/
def Fault.limiterReason : Fault → Option Reason
  | rateDeferred _ => some .rateDeferred
  | permitExpired => some .permitExpired
  | coordinationUnavailable => some .coordinationUnavailable
  | _ => none

/-- `error.next_eligible_at if isinstance(error, RateDeferred) else None`. -/
def Fault.nextEligibleAt : Fault → Option Instant
  | rateDeferred instant => some instant
  | _ => none

/-- The statuses that are retried. -/
def retried (status : ℕ) : Bool := [408, 429, 500, 502, 503, 504].contains status

namespace SecTransport

variable (t : SecTransport) (request : FetchRequest)

/-- `_verify`. -/
def verify (record : RawRecord) : Fetching Unit := do
  if record.sourceId ≠ t.descriptor.sourceId ∨ record.sourceObjectKey ≠ request.resource.objectKey ∨
      record.requestParamsHash ≠ request.resource.paramsHash ∨ record.requestUrl ≠ request.resource.url then
    raise .archiveError
  else
    ask (.validateRecord record)
    ask (.readBlob record.blobKey record.bodySha256 record.byteCount)

/-- Take a permit and mark the attempt dispatched. -/
def takePermit (currentId : Uuid) (deadline : ℚ) : Fetching (String × Instant) := do
  let permit : String ← ask (.acquire deadline)
  ask .guard
  let requestedAt : Instant ← ask .now
  ask (.dispatched currentId requestedAt)
  return (permit, requestedAt)

/-- The request of an attempt, if the HTTP library accepts it. -/
def httpRequest (url : String) (validator : Option RawRecord) (timeout : ℚ) : Except Fault HttpRequest :=
  let accept := if request.resource.kind ≠ .filingDocument then "application/json" else "text/html,application/xml,text/plain"
  let conditions := match validator with
    | none => []
    | some record =>
      (record.etag.filter (· ≠ "")).toList.map (Prod.mk "If-None-Match") ++
        (record.lastModified.filter (· ≠ "")).toList.map (Prod.mk "If-Modified-Since")
  let http : HttpRequest :=
    { url := url
      headers := [("User-Agent", t.userAgent), ("Accept-Encoding", "gzip, deflate"), ("Accept", accept)] ++ conditions
      timeout := min 30 timeout
      connect := min 10 timeout }
  if t.library.builds http then .ok http else .error .valueError

/-- The target of a redirect, if it is approved. -/
def redirectTarget (url : String) (response : Response) : Option String :=
  if [301, 302, 303, 307, 308].contains response.status then
    ((response.header "location").filter (· ≠ "")).bind (validateRedirect t.library request.resource url)
  else none

/-- The header fields that are kept. -/
def evidence (response : Response) (target : Option String) : Except Fault ResponseHeaders := do
  let contentType ← header response "content-type"
  let contentEncoding ← header response "content-encoding"
  let etag ← header response "etag"
  let lastModified ← header response "last-modified"
  let retryAfter ← header response "retry-after"
  return ⟨contentType, contentEncoding, etag, lastModified, retryAfter, target⟩

/-- Record the header fields; unacceptable ones are recorded as none before they are refused. -/
def recordHeaders (currentId : Uuid) (headersAt : Instant) (response : Response) (target : Option String) : Fetching ResponseHeaders :=
  match evidence response target with
  | .error e => do
    ask (.headers currentId headersAt response.status {})
    raise e
  | .ok fields => do
    ask (.headers currentId headersAt response.status fields)
    return fields

/-- The validator that a response 304 stands for, once it is verified. -/
def verifiedValidator (limit : ℚ) : Fetching RawRecord := do
  let v ← read
  match v.validator with
  | none => raise .archiveError
  | some record =>
    t.verify request record
    checkDeadline limit
    return record

/-- A response 304. -/
def notModified (currentId : Uuid) (limit : ℚ) : Fetching Turn := do
  match ← (t.verifiedValidator request limit).outcome with
  | .error e =>
    if e.isArchiveError then
      failed currentId .transportError (some 304) .invalidNotModified
      assign fun v => { v with validator := none }
      return .continued
    else raise e
  | .ok record =>
    let instant : Instant ← ask .now
    finished { attemptId := currentId, outcome := .notModified, finishedAt := instant, reused := some record.captureId } (some 304) none
    let v ← read
    return .returned { records := v.records ++ [record], attempts := v.outcomes, reusedCaptureIds := [record.captureId] }

/-- The declared length of a body; `int` refuses more than 4300 digits. -/
def contentLength (response : Response) : Except Fault (Option ℕ) :=
  match response.header "content-length" with
  | none => .ok none
  | some text =>
    if ¬ allDigits text.toList then .error .transferIncomplete
    else if 4300 < text.length then .error .valueError
    else .ok (some (Nat.ofDigitChars 10 text.toList 0))

/-- The bytes of a monitored response 200: all are retained, and the cached capture is reused if they are its own. -/
def monitored (cached : Option RawRecord) (currentId : Uuid) (body : ArchivedBody) (instant : Instant) : Fetching (Option Turn) := do
  ask (.readBlob body.blobKey body.bodySha256 body.byteCount)
  ask (.payload currentId ⟨instant, body.bodySha256, body.byteCount, body.blobKey⟩)
  match cached with
  | none => return none
  | some record =>
    if body.bodySha256 = record.bodySha256 ∧ body.byteCount = record.byteCount then
      t.verify request record
      let now : Instant ← ask .now
      finished { attemptId := currentId, outcome := .contentUnchanged, finishedAt := now, reused := some record.captureId } (some 200) none
      let v ← read
      return some (.returned { records := v.records ++ [record], attempts := v.outcomes, reusedCaptureIds := [record.captureId] })
    else return none

/-- The bytes of a response, if it is one that is monitored. -/
def unchanged (cached : Option RawRecord) (currentId : Uuid) (body : ArchivedBody) (instant : Instant) (status : ℕ) : Fetching (Option Turn) :=
  if request.monitorPayload ∧ status = 200 then t.monitored request cached currentId body instant else return none

/-- Pause after a response that asks for it. -/
def coolDown (deadline : ℚ) (status : ℕ) (delay : ℚ) : Fetching (Option Turn) := do
  if status = 403 ∨ status = 429 ∨ delay ≠ 0 then
    let delay := if status = 403 then max 600 delay else if status = 429 then max 1 delay else delay
    let eligible : Instant ← ask (.cooldown (some delay))
    if status = 403 then return some (.returned (← incomplete .sourceAccessDeferred (some eligible)))
    else
      let reading : ℚ ← ask .monotonic
      if deadline ≤ plus reading delay then return some (.returned (← incomplete .sourceAccessDeferred (some eligible)))
      else return none
  else return none

/-- A response that is an error. -/
def refused (deadline : ℚ) (status : ℕ) (retryAfter : Option String) : Fetching Turn := do
  let instant : Instant ← ask .now
  match retryAfterSeconds t.library.parsedate retryAfter instant with
  | none =>
    let _eligible : Instant ← ask (.cooldown none)
    return .returned (← incomplete .retryAfterRequiresReview)
  | some delay =>
    match ← coolDown deadline status delay with
    | some turn => return turn
    | none => if retried status then return .retried else return .returned (← incomplete .httpError)

/-- Finish an attempt with its capture. -/
def conclude (deadline : ℚ) (sequence : ℕ) (currentId : Uuid) (capture : RawRecord) (target : Option String)
    (retryAfter : Option String) : Fetching Turn := do
  let status := capture.httpStatus
  let arguments (outcome : Outcome) (failure : Option Reason) : Finish :=
    { attemptId := currentId, outcome := outcome, finishedAt := capture.completedAt, capture := some capture, failure := failure }
  if 200 ≤ status ∧ status < 300 then
    finished (arguments .complete none) (some status) none
    assign fun v => { v with records := v.records ++ [capture] }
    let v ← read
    return .returned { records := v.records, attempts := v.outcomes }
  else if 300 ≤ status ∧ status < 400 then
    match if sequence < 3 then target.filter (· ≠ "") else none with
    | some target =>
      finished (arguments .redirected none) (some status) none
      assign fun v => { v with records := v.records ++ [capture], url := target, validator := none }
      return .continued
    | none =>
      finished (arguments .redirectRefused (some .redirectRefused)) (some status) none
      assign fun v => { v with records := v.records ++ [capture] }
      return .returned (← incomplete .redirectRefused)
  else
    finished (arguments .httpError none) (some status) none
    assign fun v => { v with records := v.records ++ [capture] }
    t.refused deadline status retryAfter

/-- The record of a capture. -/
def captureRecord (captureId : Uuid) (url : String) (requestedAt instant : Instant) (status : ℕ) (body : ArchivedBody)
    (fields : ResponseHeaders) : RawRecord where
  captureId := captureId
  sourceId := t.descriptor.sourceId
  sourceObjectKey := request.resource.objectKey
  requestUrl := url
  requestParamsHash := request.resource.paramsHash
  requestedAt := requestedAt
  fetchedAt := instant
  completedAt := instant
  httpStatus := status
  bodySha256 := body.bodySha256
  byteCount := body.byteCount
  blobKey := body.blobKey
  contentType := fields.contentType
  policyRevisionId := t.descriptor.policyRevisionId
  termsReviewReference := t.descriptor.termsReviewReference
  etag := fields.etag
  lastModified := fields.lastModified

/-- What the body of a response is archived as. -/
def writeRequest (captureId : Uuid) (headersAt : Instant) (limit : ℚ) (fields : ResponseHeaders) (length : Option ℕ) : WriteRequest where
  sourceKey := t.descriptor.sourceKey
  sourceObjectKey := request.resource.objectKey
  paramsHash := request.resource.paramsHash
  captureId := captureId
  retrievedAt := headersAt
  maxBytes := if request.resource.kind = .filingDocument then t.documentBodyLimit else t.jsonBodyLimit
  contentEncoding := fields.contentEncoding
  expectedWireBytes := length
  deadline := limit

/-- Archive a response and finish its attempt. -/
def capture (cached : Option RawRecord) (deadline limit : ℚ) (sequence : ℕ) (currentId : Uuid) (requestedAt headersAt : Instant)
    (response : Response) (target : Option String) (fields : ResponseHeaders) : Fetching Turn := do
  let captureId : Uuid ← ask .uuid4
  let length ← ofExcept (contentLength response)
  let body : ArchivedBody ← ask (.write (t.writeRequest request captureId headersAt limit fields length))
  checkDeadline limit
  let instant : Instant ← ask .now
  match ← t.unchanged request cached currentId body instant response.status with
  | some turn => return turn
  | none =>
    let v ← read
    let record ← ofExcept (t.captureRecord request captureId v.url requestedAt instant response.status body fields).make
    t.conclude deadline sequence currentId record target fields.retryAfter

/-- What is made of a response, up to its body being closed. -/
def receive (cached : Option RawRecord) (deadline limit : ℚ) (sequence : ℕ) (currentId : Uuid) (requestedAt : Instant)
    (response : Response) : Fetching Turn := do
  assign fun v => { v with currentStatus := some response.status }
  let headersAt : Instant ← ask .now
  let v ← read
  let target := t.redirectTarget request v.url response
  let fields ← recordHeaders currentId headersAt response target
  checkDeadline limit
  if response.status = 304 then t.notModified request currentId limit
  else t.capture request cached deadline limit sequence currentId requestedAt headersAt response target fields

/-- Confirm the permit and send the request. -/
def dispatch (cached : Option RawRecord) (deadline limit timeout : ℚ) (sequence : ℕ) (currentId : Uuid) (permit : String)
    (requestedAt : Instant) : Fetching Turn := do
  checkDeadline limit
  let v ← read
  let http ← ofExcept (t.httpRequest request v.url v.validator timeout)
  match ← (ask (.confirm permit)).outcome with
  | .error .permitExpired =>
    failed currentId .cancelled none .permitExpired
    return .returned (← incomplete .permitExpired)
  | .error .coordinationUnavailable =>
    failed currentId .cancelled none .coordinationUnavailable
    return .returned (← incomplete .coordinationUnavailable)
  | .error e => raise e
  | .ok _ =>
    let response : Response ← ask (.send http)
    closing (t.receive request cached deadline limit sequence currentId requestedAt response)

/-- The handlers of a dispatch: a failed transfer may be tried again, a failed archive may not. -/
def handle (currentId : Uuid) (e : Fault) : Fetching Turn := do
  let v ← read
  if e = .transportError ∨ e = .dispatchDeadline ∨ e = .transferIncomplete then
    failed currentId .transportError v.currentStatus (if e = .dispatchDeadline then .dispatchDeadline else .transferIncomplete)
    return .retried
  else if e.isArchiveError ∨ e.isOSError then
    let (outcome, reason) : Outcome × Reason :=
      if e = .bodyLimitExceeded then (.bodyLimit, .bodyLimit)
      else if e = .contentDecodingError then (.transportError, .transportError)
      else (.archiveError, .archiveError)
    failed currentId outcome v.currentStatus reason
    return .returned (← incomplete reason)
  else raise e

/-- One attempt. -/
def attempt (cached : Option RawRecord) (deadline : ℚ) (sequence : ℕ) : Fetching Turn := do
  assign fun v => { v with currentStatus := none }
  let v ← read
  let currentId : Uuid ← ask (.prepare sequence v.url v.validator)
  match ← (takePermit currentId deadline).outcome with
  | .error e =>
    match e.limiterReason with
    | some reason =>
      failed currentId .cancelled none reason
      return .returned (← incomplete reason e.nextEligibleAt)
    | none => raise e
  | .ok (permit, requestedAt) =>
    let started : ℚ ← ask .monotonic
    let limit := min deadline (plus started 120)
    let reading : ℚ ← ask .monotonic
    let timeout := max (binary64 (1 / 1000)) (binary64 (limit - reading))
    match ← (t.dispatch request cached deadline limit timeout sequence currentId permit requestedAt).outcome with
    | .ok turn => return turn
    | .error e => handle currentId e

/-- The attempts of a list of numbers, with a pause after one that may be tried again. -/
def attempts (cached : Option RawRecord) (deadline : ℚ) : List ℕ → Fetching FetchResult
  | [] => incomplete .dispatchBudgetExhausted
  | sequence :: rest => do
    match ← t.attempt request cached deadline sequence with
    | .returned result => return result
    | .continued => attempts cached deadline rest
    | .retried =>
      if sequence < 3 then
        let jitter : ℚ ← ask .jitter
        let delay := plus (2 ^ (sequence - 1)) (max 0 (min 1 jitter))
        let reading : ℚ ← ask .monotonic
        if deadline ≤ plus reading delay then incomplete .dispatchBudgetExhausted
        else
          ask (.sleep delay)
          attempts cached deadline rest
      else attempts cached deadline rest

/-- The cached record, if it is verified and successful. -/
def verifiedCache : Fetching (Option RawRecord) :=
  match request.cachedRecord with
  | none => return none
  | some record => do
    match ← (t.verify request record).outcome with
    | .ok _ => return if record.successful then some record else none
    | .error e => if e.isArchiveError then return none else raise e

/-- The attempts of a fetch, unless its mode lets it reuse a cached record that is fresh. -/
def guarded (cached : Option RawRecord) (deadline : ℚ) : Fetching FetchResult := do
  ask .guard
  match if request.cacheMode = .reuse then cached else none with
  | some record =>
    let instant : Instant ← ask .now
    if instant - record.fetchedAt ≤ t.descriptor.freshnessSla then
      return { records := [record], reusedCaptureIds := [record.captureId] }
    else t.attempts request cached deadline [1, 2, 3]
  | none => t.attempts request cached deadline [1, 2, 3]

/-- Verify each of a list of records. -/
def verifyAll : List RawRecord → Fetching Unit
  | [] => return ()
  | record :: rest => do
    t.verify request record
    verifyAll rest

/-- A fetch that replays pinned records. -/
def replay : Fetching FetchResult := do
  match ← (t.verifyAll request request.replayRecords).outcome with
  | .error e => if e.isArchiveError then return { gaps := [.archiveIntegrity], completeness := .incomplete } else raise e
  | .ok _ =>
    if request.replayRecords = [] ∨ ¬ request.replayRecords.all RawRecord.successful then
      return { records := request.replayRecords, gaps := [.captureUnavailable] }
    else return { records := request.replayRecords, reusedCaptureIds := request.replayRecords.map RawRecord.captureId }

/-- A live fetch: a lost lease and a coordinator that fails between attempts end it with what it has. -/
def live (leaseExpiresAt : Instant) : Fetching FetchResult := do
  let cached ← t.verifiedCache request
  let instant : Instant ← ask .now
  let workerRemaining := max 0 (totalSeconds (leaseExpiresAt - instant))
  let reading : ℚ ← ask .monotonic
  let deadline := plus reading (min 360 workerRemaining)
  assign fun v => { v with validator := (if request.cacheMode = .conditional then cached else none).filter RawRecord.conditional }
  match ← (t.guarded request cached deadline).outcome with
  | .ok result => return result
  | .error .leaseLost => incomplete .leaseLost
  | .error .coordinationUnavailable => incomplete .coordinationUnavailable
  | .error e => raise e

/-- `SecTransport.fetch`. -/
def fetch : Fetching FetchResult := do
  if request.resource.kind ∉ t.descriptor.resourceKinds then raise .valueError
  else if request.cacheMode = .replay then t.replay request
  else
    match request.leaseExpiresAt with
    | none => raise .assertionError
    | some leaseExpiresAt => t.live request leaseExpiresAt

/-- The program of a fetch, from its variables before the first statement. -/
def program : Program (Answered Fault Value) (Except Fault FetchResult × Locals) :=
  t.fetch request { url := request.resource.url, validator := none }

end SecTransport

end EquityEval.Transport
