import EquityEval.Arithmetic.Binary64
import EquityEval.Interaction.Action
import EquityEval.Vintage.Manifest

/-!
# The calls of a fetch

A fetch calls the attempt store, the limiter, the HTTP client, the archive, the clocks and the interpreter's
sources of randomness. Each call is answered by a value or by an exception. The monotonic clock and the
delays are doubles; the wall clock counts microseconds.
-/

namespace EquityEval.Transport

open FloatArithmetic Interaction
open Workflow (Uuid Instant isSha256 seconds)

/-- The classes of the exceptions that a fetch meets. -/
inductive Fault where
  | rateDeferred (nextEligibleAt : Instant)
  | coordinationUnavailable
  | permitExpired
  | leaseLost
  | archiveError
  | bodyLimitExceeded
  | contentDecodingError
  | transferIncomplete
  | reflectedSecret
  | transportError
  | dispatchDeadline
  | osError
  | permissionError
  | providerBudgetExceeded
  | valueError
  | assertionError
deriving DecidableEq, Repr

namespace Fault

/-- `isinstance(error, ArchiveError)`. -/
def isArchiveError : Fault → Bool
  | archiveError | bodyLimitExceeded | contentDecodingError | transferIncomplete | reflectedSecret => true
  | _ => false

/-- `isinstance(error, PermissionError)`. -/
def isPermissionError : Fault → Bool
  | permissionError | providerBudgetExceeded => true
  | _ => false

/-- `isinstance(error, OSError)`. -/
def isOSError : Fault → Bool
  | dispatchDeadline | osError => true
  | e => e.isPermissionError

end Fault

/-- Why an attempt failed, or what a result lacks. -/
inductive Reason where
  | rateDeferred
  | permitExpired
  | coordinationUnavailable
  | invalidNotModified
  | transferIncomplete
  | dispatchDeadline
  | bodyLimit
  | transportError
  | archiveError
  | redirectRefused
  | unsafeReflectedSecret
  | sourcePolicyUnavailable
  | retryAfterRequiresReview
  | sourceAccessDeferred
  | httpError
  | dispatchBudgetExhausted
  | providerBudgetExhausted
  | leaseLost
  | archiveIntegrity
  | captureUnavailable
  | credentialsMissing
  | accountQuotaUnreviewed
deriving DecidableEq, Repr

/-- How an attempt ends. -/
inductive Outcome where
  | complete
  | notModified
  | contentUnchanged
  | redirected
  | httpError
  | transportError
  | bodyLimit
  | redirectRefused
  | archiveError
  | cancelled
deriving DecidableEq, Repr

/-- `RawRecord`: a capture, with the request that it answers. -/
structure RawRecord where
  captureId : Uuid
  sourceId : Uuid
  sourceObjectKey : String
  requestUrl : String
  requestParamsHash : String
  requestedAt : Instant
  fetchedAt : Instant
  completedAt : Instant
  httpStatus : ℕ
  bodySha256 : String
  byteCount : ℕ
  blobKey : String
  contentType : Option String
  policyRevisionId : Uuid
  termsReviewReference : String
  etag : Option String
  lastModified : Option String
deriving DecidableEq, Repr

namespace RawRecord

/-- What `RawRecord.__post_init__` asks for. -/
def Valid (r : RawRecord) : Prop :=
  (r.requestedAt ≤ r.fetchedAt ∧ r.fetchedAt ≤ r.completedAt) ∧ (100 ≤ r.httpStatus ∧ r.httpStatus ≤ 599) ∧ r.blobKey ≠ "" ∧
    isSha256 r.bodySha256 ∧ isSha256 r.requestParamsHash

instance (r : RawRecord) : Decidable r.Valid := inferInstanceAs (Decidable (_ ∧ _))

/-- The record, if its fields are accepted. -/
def make (r : RawRecord) : Except Fault RawRecord := if r.Valid then .ok r else .error .valueError

/-- `RawRecord.successful`. -/
def successful (r : RawRecord) : Bool := 200 ≤ r.httpStatus && r.httpStatus < 300

/-- The record can be the validator of a conditional request. -/
def conditional (r : RawRecord) : Bool := r.etag.any (· ≠ "") || r.lastModified.any (· ≠ "")

end RawRecord

/-- `AttemptOutcome`: what a result says of an attempt. -/
structure AttemptOutcome where
  attemptId : Uuid
  outcome : Outcome
  httpStatus : Option ℕ
  reason : Option Reason
deriving DecidableEq, Repr

/-- Whether a result is complete. -/
inductive Completeness where
  | complete
  | incomplete
  | unknown
deriving DecidableEq, Repr

/-- `FetchResult`. -/
structure FetchResult where
  records : List RawRecord := []
  attempts : List AttemptOutcome := []
  reusedCaptureIds : List Uuid := []
  completeness : Completeness := .unknown
  gaps : List Reason := []
  nextEligibleAt : Option Instant := none
deriving DecidableEq, Repr

/-- `FetchResult.usable`. -/
def FetchResult.usable (r : FetchResult) : Bool := r.records.any RawRecord.successful && r.gaps.isEmpty

/-- `CacheMode`. -/
inductive CacheMode where
  | refresh
  | reuse
  | conditional
  | replay
deriving DecidableEq, Repr

/-- `ResponseHeaders`: the header fields that are kept as evidence. -/
structure ResponseHeaders where
  contentType : Option String := none
  contentEncoding : Option String := none
  etag : Option String := none
  lastModified : Option String := none
  retryAfter : Option String := none
  location : Option String := none
deriving DecidableEq, Repr

/-- `ArchivedBody`. -/
structure ArchivedBody where
  blobKey : String
  bodySha256 : String
  byteCount : ℕ
deriving DecidableEq, Repr

/-- `MonitorPayload`. -/
structure MonitorPayload where
  fetchedAt : Instant
  bodySha256 : String
  byteCount : ℕ
  blobKey : String
deriving DecidableEq, Repr

/-- A request of the HTTP client. -/
structure HttpRequest where
  url : String
  params : List (String × String) := []
  headers : List (String × String)
  timeout : ℚ
  connect : ℚ

/-- A response of the HTTP client, before its body is read: the status and the header fields by name. -/
structure Response where
  status : ℕ
  header : String → Option String

/-- The arguments of `LocalArchive.write`; the deadline is the limit of the check made between chunks, the
secret what the check of decoded chunks looks for. -/
structure WriteRequest where
  sourceKey : String
  sourceObjectKey : String
  paramsHash : String
  captureId : Uuid
  retrievedAt : Instant
  maxBytes : ℕ
  contentEncoding : Option String
  expectedWireBytes : Option ℕ
  deadline : ℚ
  secret : Option String := none

/-- The arguments of `finish`. -/
structure Finish where
  attemptId : Uuid
  outcome : Outcome
  finishedAt : Instant
  capture : Option RawRecord := none
  reused : Option Uuid := none
  failure : Option Reason := none
deriving DecidableEq, Repr

/-- A delay in seconds; an infinite one asks for a review. -/
abbrev Delay : Type := Option ℚ

/-- The calls. The request of the fetch is an argument of each call of the store. -/
inductive Call where
  | validateRecord (record : RawRecord)
  | guard
  | prepare (sequence : ℕ) (url : String) (validator : Option RawRecord)
  | dispatched (attemptId : Uuid) (instant : Instant)
  | headers (attemptId : Uuid) (instant : Instant) (status : ℕ) (headers : ResponseHeaders)
  | payload (attemptId : Uuid) (payload : MonitorPayload)
  | finish (arguments : Finish)
  | acquire (deadline : ℚ)
  | confirm (permit : String)
  | cooldown (seconds : Delay)
  | send (request : HttpRequest)
  | close
  | write (request : WriteRequest)
  | readBlob (blobKey bodySha256 : String) (byteCount : ℕ)
  | now
  | monotonic
  | sleep (seconds : ℚ)
  | jitter
  | uuid4

/-- The values that answer the calls. -/
abbrev Value : Call → Type
  | .prepare .. | .uuid4 => Uuid
  | .acquire _ => String
  | .confirm _ | .cooldown _ | .now => Instant
  | .send _ => Response
  | .write _ => ArchivedBody
  | .monotonic | .jitter => ℚ
  | _ => Unit

/-- The events of a fetch. -/
abbrev Event : Type := Interaction.Event (Answered Fault Value)

/-- A call that returned a value. -/
abbrev answered (c : Call) (value : Value c) : Event := ⟨c, .ok value⟩

/-- The local variables that a fetch assigns. -/
structure Locals where
  records : List RawRecord := []
  outcomes : List AttemptOutcome := []
  currentStatus : Option ℕ := none
  url : String
  validator : Option RawRecord

/-- The actions of a fetch. -/
abbrev Fetching : Type → Type := Action Value Fault Locals

/-- Make a call. -/
def ask (c : Call) : Fetching (Value c) := Action.call c

/-- `timedelta.total_seconds()`. -/
def totalSeconds (microseconds : ℤ) : ℚ := binary64 (microseconds / 1000000)

/-- The sum of two doubles. -/
def plus (a b : ℚ) : ℚ := binary64 (a + b)

/-- What follows a response, and whether the fetch returns, goes on with the next attempt or pauses before it. -/
inductive Turn where
  | returned (result : FetchResult)
  | continued
  | retried

/-- `with closing(response):` around an action. -/
def closing {α : Type} (body : Fetching α) : Fetching α := do
  let result ← body.outcome
  ask .close
  Action.ofExcept result

/-- `check_deadline()`. -/
def checkDeadline (limit : ℚ) : Fetching Unit := do
  let reading : ℚ ← ask .monotonic
  if limit ≤ reading then Action.raise .dispatchDeadline else pure ()

/-- A date of a header field, with or without an offset. -/
inductive ParsedDate where
  | naive
  | aware (instant : Instant)

/-- `datetime(9999, 1, 1, tzinfo=UTC)`. -/
def lastYear : Instant := seconds 253370764800

/-- The text without the white space around it. -/
def strip (text : String) : List Char :=
  ((text.toList.dropWhile Vintage.isSpace).reverse.dropWhile Vintage.isSpace).reverse

/-- `re.fullmatch(r"[0-9]+", text)`. -/
def allDigits (text : List Char) : Bool := text ≠ [] && text.all fun c => '0' ≤ c && c ≤ '9'

/-- `retry_after_seconds`. -/
def retryAfterSeconds (parsedate : String → Option ParsedDate) (value : Option String) (now : Instant) : Delay :=
  match value with
  | none => some 0
  | some value =>
    if allDigits (strip value) then
      let delay := Nat.ofDigitChars 10 (strip value) 0
      if delay < totalSeconds (lastYear - now) then some (binary64 delay) else none
    else
      match parsedate value with
      | none | some .naive => some 0
      | some (.aware date) => if lastYear ≤ date then none else some (max 0 (totalSeconds (date - now)))

end EquityEval.Transport
