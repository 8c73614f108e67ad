import EquityEval.Workflow.System

/-!
# Captures and fetch attempts

A capture is an archived response. A fetch of a resource is a logical fetch of up to three attempts;
each attempt is prepared, dispatched, receives headers and ends with one outcome.
-/

namespace EquityEval.Ingestion

open Relational Workflow

/-- A row of `source_captures` with its link to a policy revision. -/
structure SourceCapture where
  id : Uuid
  sourceId : Uuid
  sourceObjectKey : String
  requestUrl : String
  requestParamsHash : String
  requestedAt : Instant
  completedAt : Option Instant
  fetchedAt : Option Instant
  httpStatus : Option ℤ
  bodySha256 : Option String
  blobKey : Option String
  byteCount : Option ℤ
  contentType : Option String
  policyRevisionId : Option Uuid
deriving DecidableEq, Repr

/-- `btrim(text)<>''`. -/
abbrev Nonblank (text : String) : Prop := trimmedLength text ≠ 0

/-- The status is one of success: `BETWEEN 200 AND 299`. -/
abbrev Success (status : ℤ) : Prop := 200 ≤ status ∧ status ≤ 299

/-- The checks of a row of `source_captures`. -/
abbrev SourceCapture.Checked (c : SourceCapture) : Prop :=
  Nonblank c.sourceObjectKey ∧ isSha256 c.requestParamsHash ∧
    (∀ completed ∈ c.completedAt, c.requestedAt ≤ completed) ∧
    (∀ fetched ∈ c.fetchedAt, c.requestedAt ≤ fetched ∧ ∃ completed ∈ c.completedAt, fetched ≤ completed) ∧
    (∀ status ∈ c.httpStatus, 100 ≤ status ∧ status ≤ 599) ∧
    (∀ hash ∈ c.bodySha256, isSha256 hash) ∧ (∀ count ∈ c.byteCount, 0 ≤ count) ∧
    ((c.bodySha256 = none ∧ c.blobKey = none ∧ c.byteCount = none) ∨
      (c.bodySha256 ≠ none ∧ (∃ key ∈ c.blobKey, Nonblank key) ∧ c.byteCount ≠ none ∧ c.fetchedAt ≠ none)) ∧
    (∀ status ∈ c.httpStatus, Success status → c.completedAt ≠ none ∧ c.fetchedAt ≠ none ∧ c.bodySha256 ≠ none)

set_option synthInstance.maxSize 400 in
instance (c : SourceCapture) : Decidable c.Checked := inferInstance

/-- The constraints of `source_captures`. -/
abbrev CapturesValid (rows : List SourceCapture) : Prop :=
  UniqueBy SourceCapture.id rows ∧ ∀ c ∈ rows, c.Checked

/-- No captures satisfy the constraints. -/
theorem capturesValid_nil : CapturesValid [] := by decide

/-- The state of an attempt. -/
inductive AttemptState where
  | prepared
  | inProgress
  | complete
  | notModified
  | contentUnchanged
  | redirected
  | httpError
  | transportError
  | bodyLimit
  | redirectRefused
  | archiveError
  | cancelled
  | interruptedUnknown
deriving DecidableEq, Repr

/-- The attempt has not ended: `state IN ('prepared','in_progress')`. -/
def AttemptState.Unfinished : AttemptState → Prop
  | prepared | inProgress => True
  | _ => False

instance : DecidablePred AttemptState.Unfinished := fun s => by
  cases s <;> unfold AttemptState.Unfinished <;> infer_instance

/-- Bytes that were quarantined. -/
structure Quarantine where
  bodySha256 : String
  byteCount : ℤ
  blobKey : String
deriving DecidableEq, Repr

/-- The allowed response headers with their values. -/
abbrev ResponseHeaders : Type := List (String × String)

/-- A row of `source_fetch_attempts`. -/
structure FetchAttempt where
  id : Uuid
  logicalFetchId : Uuid
  sequenceNo : ℕ
  sourceId : Uuid
  policyRevisionId : Uuid
  sourceObjectKey : String
  requestUrl : String
  requestParamsHash : String
  stageAttemptId : Uuid
  leaseEpoch : ℕ
  leaseFencingToken : ℕ
  leaseOwner : String
  creationTransactionId : ℕ
  preparedAt : Instant
  requestedAt : Option Instant := none
  headersReceivedAt : Option Instant := none
  finishedAt : Option Instant := none
  httpStatus : Option ℤ := none
  state : AttemptState := .prepared
  completedCaptureId : Option Uuid := none
  reusedCaptureId : Option Uuid := none
  validatorCaptureId : Option Uuid := none
  ifNoneMatch : Option String := none
  ifModifiedSince : Option String := none
  responseHeaders : ResponseHeaders := []
  failureCode : Option String := none
  failureDetail : Option String := none
  quarantine : Option Quarantine := none
deriving DecidableEq, Repr

namespace FetchAttempt

/-- The attempt has not ended. -/
abbrev Unfinished (a : FetchAttempt) : Prop := a.state.Unfinished

/-- `coalesce(headers_received_at,requested_at,prepared_at)`. -/
def lastRecorded (a : FetchAttempt) : Instant := (a.headersReceivedAt.or a.requestedAt).getD a.preparedAt

/-- A header value without a line break, of a number of octets within bounds. -/
def headerValue (least most : ℕ) (text : String) : Bool :=
  decide (least ≤ text.utf8ByteSize) && decide (text.utf8ByteSize ≤ most) &&
    text.toList.all fun c => c ≠ '\r' && c ≠ '\n'

/-- `ingestion_header_evidence_valid`, except for the length of the whole text. -/
def headerEvidenceValid (headers : ResponseHeaders) : Bool :=
  headers.all fun header =>
    ["content_type", "content_encoding", "etag", "last_modified", "retry_after", "location"].contains header.1 &&
      headerValue 0 4096 header.2

/-- The checks of a row about its dates. -/
abbrev Dated (a : FetchAttempt) : Prop :=
  (∀ requested ∈ a.requestedAt, a.preparedAt ≤ requested) ∧
    ((a.headersReceivedAt = none ∧ a.httpStatus = none) ∨
      ((∃ received ∈ a.headersReceivedAt, ∃ requested ∈ a.requestedAt, requested ≤ received) ∧ a.httpStatus ≠ none)) ∧
    ((a.Unfinished ∧ a.finishedAt = none) ∨ (¬ a.Unfinished ∧ ∃ finished ∈ a.finishedAt, a.lastRecorded ≤ finished)) ∧
    (a.state = .prepared → a.requestedAt = none ∧ a.headersReceivedAt = none) ∧
    (a.state = .inProgress → a.requestedAt ≠ none)

/-- The status of an attempt satisfies a condition. -/
abbrev Status (a : FetchAttempt) (condition : ℤ → Prop) : Prop := ∃ status ∈ a.httpStatus, condition status

/-- The checks of a row about its outcome. -/
abbrev Explained (a : FetchAttempt) : Prop :=
  (a.state = .complete → a.Status Success ∧ a.completedCaptureId ≠ none) ∧
    (a.state = .httpError → a.Status fun status => 400 ≤ status ∧ status ≤ 599) ∧
    (a.state = .notModified → (a.Status fun status => status = 304) ∧ a.reusedCaptureId ≠ none ∧
      a.reusedCaptureId = a.validatorCaptureId) ∧
    (a.state = .contentUnchanged → (a.Status fun status => status = 200) ∧ a.reusedCaptureId ≠ none) ∧
    (a.state = .redirected → (a.Status fun status => status ∈ [301, 302, 303, 307, 308]) ∧
      (a.responseHeaders.lookup "location").isSome) ∧
    (a.state = .redirectRefused → a.Status fun status => 300 ≤ status ∧ status ≤ 399 ∧ status ≠ 304) ∧
    (a.completedCaptureId ≠ none → a.state ∈ [.complete, .httpError, .redirected, .redirectRefused]) ∧
    (a.state ∈ [.notModified, .contentUnchanged] ↔ a.reusedCaptureId ≠ none) ∧
    (a.completedCaptureId = none ∨ a.reusedCaptureId = none) ∧
    (∀ q ∈ a.quarantine, isSha256 q.bodySha256 ∧ 0 ≤ q.byteCount ∧ Nonblank q.blobKey ∧ a.completedCaptureId = none) ∧
    (a.state ∈ [.transportError, .bodyLimit, .redirectRefused, .archiveError, .cancelled, .interruptedUnknown] →
      ∃ code ∈ a.failureCode, Nonblank code)

set_option synthInstance.maxSize 400 in
instance (a : FetchAttempt) : Decidable a.Explained := inferInstance

/-- The checks of a row of `source_fetch_attempts`. -/
abbrev Checked (a : FetchAttempt) : Prop :=
  1 ≤ a.sequenceNo ∧ a.sequenceNo ≤ 3 ∧ Nonblank a.sourceObjectKey ∧ isSha256 a.requestParamsHash ∧
    0 < a.leaseEpoch ∧ 0 < a.leaseFencingToken ∧ Nonblank a.leaseOwner ∧
    (∀ status ∈ a.httpStatus, 100 ≤ status ∧ status ≤ 599) ∧
    (∀ text ∈ a.ifNoneMatch, headerValue 1 4096 text) ∧ (∀ text ∈ a.ifModifiedSince, headerValue 1 4096 text) ∧
    headerEvidenceValid a.responseHeaders ∧
    (∀ code ∈ a.failureCode, 1 ≤ code.utf8ByteSize ∧ code.utf8ByteSize ≤ 128) ∧
    (∀ detail ∈ a.failureDetail, detail.utf8ByteSize ≤ 2048) ∧
    ((a.validatorCaptureId = none ∧ a.ifNoneMatch = none ∧ a.ifModifiedSince = none) ∨
      (a.validatorCaptureId ≠ none ∧ (a.ifNoneMatch ≠ none ∨ a.ifModifiedSince ≠ none))) ∧
    a.Dated ∧ a.Explained

set_option synthInstance.maxSize 400 in
instance (a : FetchAttempt) : Decidable a.Checked := inferInstance

/-- The columns that an update keeps: the attempt as it was prepared. -/
def identity (a : FetchAttempt) : FetchAttempt :=
  { a with
    state := .prepared, requestedAt := none, headersReceivedAt := none, finishedAt := none, httpStatus := none
    responseHeaders := [], completedCaptureId := none, reusedCaptureId := none, failureCode := none
    failureDetail := none, quarantine := none }

end FetchAttempt

/-- The constraints of `source_fetch_attempts`. -/
abbrev AttemptsValid (rows : List FetchAttempt) : Prop :=
  UniqueBy FetchAttempt.id rows ∧ UniqueBy (fun a => (a.logicalFetchId, a.sequenceNo)) rows ∧
    UniqueBy FetchAttempt.completedCaptureId (rows.filter fun a => decide (a.completedCaptureId ≠ none)) ∧
    ∀ a ∈ rows, a.Checked

/-- No attempts satisfy the constraints. -/
theorem attemptsValid_nil : AttemptsValid [] := by decide

end EquityEval.Ingestion
