import EquityEval.Ingestion.Attempts
import EquityEval.Transition.System
import Mathlib.Data.List.Dedup

/-!
# The provider store

Before a provider is asked, an attempt is prepared under the lock of its source. A preparation counts the
attempts of the source against the budget of the request and, for an account, against its quota. The
transaction starts before it waits for the lock, and its windows end when it started; the attempt is
stamped when it is inserted.
-/

namespace EquityEval.Provider

open Relational Workflow Ingestion TransitionSystem

/-! ### Descriptors -/

/-- `PROVIDER_BODY_LIMIT`. -/
def providerBodyLimit : ℕ := 32 * 1024 * 1024

/-- `PROVIDER_WIRE_LIMIT`. -/
def providerWireLimit : ℕ := 2 * providerBodyLimit + 65536

/-- The providers. -/
inductive ProviderKind where
  | treasury
  | tiingo
  | fred
deriving DecidableEq, Repr

/-- Reviewed conservative rolling windows. -/
structure ProviderQuota where
  hourlyRequests : ℕ
  dailyRequests : ℕ
  monthlyRequests : ℕ
  monthlySymbols : ℕ
  monthlyWireBytes : ℕ
  positive : 0 < hourlyRequests ∧ 0 < dailyRequests ∧ 0 < monthlyRequests ∧ 0 < monthlySymbols ∧ 0 < monthlyWireBytes
deriving DecidableEq, Repr

/-- What a source is configured with. -/
structure ProviderDescriptor where
  policyRevisionId : Uuid
  provider : ProviderKind
  quota : Option ProviderQuota
deriving DecidableEq, Repr

/-- A capture whose validators a request presents. -/
structure Validator where
  captureId : Uuid
  etag : Option String
  lastModified : Option String
deriving DecidableEq, Repr

/-- A live fetch of a resource. -/
structure FetchRequest where
  logicalFetchId : Uuid
  objectKey : String
  url : String
  paramsHash : String
  lease : Lease
  stageId : Uuid
deriving DecidableEq, Repr

/-! ### Errors and answers -/

/-- What the store raises. -/
inductive StoreError where
  | leaseLost
  | permissionDenied (message : String)
  | budgetExceeded (message : String)
  | database (error : SqlError)
deriving DecidableEq, Repr

/-- The error of a transaction as the store raises it. -/
def StoreError.ofSql (error : SqlError) : StoreError :=
  if error.state = .objectNotInPrerequisiteState then
    if "lease lost".toList.isPrefixOf error.message.toList = true then .leaseLost
    else .permissionDenied "Provider policy or attempt is unavailable"
  else if error.state = .checkViolation then .permissionDenied "Provider request is outside its reviewed policy"
  else .database error

/-- The result of a transaction as the store returns it. -/
def fromSql {α : Type} (result : Except SqlError α) : Except StoreError α := result.mapError .ofSql

/-- What the tables that are not modelled answer to a call: the leases and stages, whether the descriptor, the plan and the
policy permit it, and whether the triggers of attempts accept what is written. -/
structure Answers where
  stage : StageAnswer
  permitted : Bool
  accepted : Bool
deriving DecidableEq, Repr

/-- The triggers that answer as given. -/
def Answers.trigger (answers : Answers) : RowTrigger := fun _ _ =>
  raiseIf (answers.accepted = false) ⟨.checkViolation, "market resource is outside reviewed policy scope"⟩

/-! ### Windows -/

/-- `interval '1 hour'`. -/
def hour : ℤ := seconds 3600

/-- `interval '1 day'`. -/
def day : ℤ := seconds 86400

/-- `interval '31 days'`. -/
def month : ℤ := 31 * day

section Calls

variable (descriptorOf : Uuid → ProviderDescriptor) (requestOf : Uuid → Option Uuid)

/-- `_guard`: the stage of the lease runs, it is of the lease's request, and the request is permitted. -/
def guard (request : FetchRequest) (answers : Answers) : Except StoreError Unit := do
  raiseIf (answers.stage.held = false ∨ requestOf request.stageId ≠ some request.lease.requestId) .leaseLost
  raiseIf (answers.permitted = false) (.permissionDenied "Live request differs from immutable market plan")

/-- The attempts that the analysis request of a fetch has made for its resource. -/
def consumed (attempts : Attempts) (source : Uuid) (request : FetchRequest) : List FetchAttempt :=
  attempts.rows.filter fun a => requestOf a.stageAttemptId = some request.lease.requestId ∧ a.sourceId = source ∧
    a.sourceObjectKey = request.objectKey ∧ a.requestParamsHash = request.paramsHash

/-- The attempts of a source that were prepared from an instant on. -/
def preparedSince (attempts : Attempts) (source : Uuid) (first : Instant) : List FetchAttempt :=
  attempts.rows.filter fun a => a.sourceId = source ∧ first ≤ a.preparedAt

/-- `_reserve`. -/
def reserve (attempts : Attempts) (started : Instant) (source : Uuid) (request : FetchRequest) : Except StoreError Unit := do
  raiseIf (3 ≤ (consumed requestOf attempts source request).length)
    (.budgetExceeded "Immutable request has consumed its three attempts")
  if (descriptorOf source).provider = .tiingo then do
    let quota ← orRaise (descriptorOf source).quota (.permissionDenied "Tiingo account quota must be explicitly reviewed")
    let monthly := preparedSince attempts source (started - month)
    let symbols := (monthly.map (·.sourceObjectKey)).dedup.length
    let seen := ∃ a ∈ monthly, a.sourceObjectKey = request.objectKey
    raiseIf (quota.hourlyRequests ≤ (monthly.filter fun a => started - hour ≤ a.preparedAt).length ∨
        quota.dailyRequests ≤ (monthly.filter fun a => started - day ≤ a.preparedAt).length ∨
        quota.monthlyRequests ≤ monthly.length ∨ quota.monthlyWireBytes < (monthly.length + 1) * providerWireLimit)
      (.budgetExceeded "Reviewed account request or wire-byte quota exhausted")
    raiseIf (quota.monthlySymbols < symbols + if seen then 0 else 1) (.budgetExceeded "Reviewed account symbols quota exhausted")

/-- What a fetch asks the database to prepare. -/
def attemptRequest (source : Uuid) (request : FetchRequest) (sequence : ℕ) (url : String) (validator : Option Validator) :
    AttemptRequest where
  logicalFetchId := request.logicalFetchId
  sequence := sequence
  sourceId := source
  policyRevisionId := (descriptorOf source).policyRevisionId
  sourceObjectKey := request.objectKey
  requestUrl := url
  requestParamsHash := request.paramsHash
  validatorCaptureId := validator.map (·.captureId)
  ifNoneMatch := validator.bind (·.etag)
  ifModifiedSince := validator.bind (·.lastModified)

/-- A preparation whose transaction has started and that waits for the lock of its source. -/
structure Preparation where
  source : Uuid
  request : FetchRequest
  sequence : ℕ
  url : String
  validator : Option Validator
  validated : Bool
  started : Instant
deriving DecidableEq, Repr

/-- `prepare`, from the lock on. -/
def prepare (attempts : Attempts) (now : Instant) (transaction : ℕ) (id : Uuid) (p : Preparation) (answers : Answers) :
    Except StoreError (Attempts × Uuid) := do
  raiseIf (p.url ≠ p.request.url) (.permissionDenied "Provider request URL differs from the typed resource")
  raiseIf (p.validator ≠ none ∧ p.validated = false) (.permissionDenied "Conditional capture differs from requested resource")
  guard requestOf p.request answers
  if existingAttempt attempts p.request.logicalFetchId p.sequence = none then
    reserve descriptorOf requestOf attempts p.started p.source p.request
  fromSql (ingestionPrepare answers.trigger attempts now transaction id p.request.lease p.request.stageId answers.stage
    (attemptRequest descriptorOf p.source p.request p.sequence p.url p.validator))

/-- `_attempt`: the attempt is the one that the request prepared. -/
def checkAttempt (attempts : Attempts) (source : Uuid) (request : FetchRequest) (id : Uuid) : Except StoreError Unit :=
  raiseIf (¬ ∃ a ∈ attempts.lookup FetchAttempt.id id, a.sourceId = source ∧
      a.policyRevisionId = (descriptorOf source).policyRevisionId ∧ a.sourceObjectKey = request.objectKey ∧
      a.requestParamsHash = request.paramsHash ∧ a.requestUrl = request.url ∧ a.logicalFetchId = request.logicalFetchId ∧
      a.stageAttemptId = request.stageId)
    (.permissionDenied "Provider attempt differs from its prepared request")

/-- `dispatched`. -/
def dispatched (attempts : Attempts) (transaction : ℕ) (source : Uuid) (request : FetchRequest) (id : Uuid) (at' : Instant)
    (answers : Answers) : Except StoreError Attempts := do
  guard requestOf request answers
  checkAttempt descriptorOf attempts source request id
  fromSql (ingestionDispatch answers.trigger attempts transaction request.lease answers.stage id at')

/-- `headers`. -/
def headers (attempts : Attempts) (source : Uuid) (request : FetchRequest) (id : Uuid) (at' : Instant) (status : ℤ)
    (evidence : ResponseHeaders) (answers : Answers) : Except StoreError Attempts := do
  checkAttempt descriptorOf attempts source request id
  fromSql (ingestionHeaders answers.trigger attempts request.lease answers.stage id at' status evidence)

/-- `finish`; whether the capture agrees with the attempt and is stored is an argument. -/
def finish (attempts : Attempts) (source : Uuid) (request : FetchRequest) (id : Uuid) (ending : Ending) (captured : Bool)
    (answers : Answers) : Except StoreError Attempts := do
  checkAttempt descriptorOf attempts source request id
  fromSql (ingestionFinalize answers.trigger attempts request.lease answers.stage captured id ending)

end Calls

/-! ### The store as a transition system -/

/-- A dispatch: the attempt, its source and the instant. -/
structure Dispatch where
  attemptId : Uuid
  sourceId : Uuid
  at' : Instant
deriving DecidableEq, Repr

/-- The clock of the database, its attempts, the preparations that wait for a lock, and the dispatches so far. -/
structure State where
  now : Instant
  attempts : Attempts
  waiting : List Preparation
  dispatches : List Dispatch

/-- What happens in a step. -/
inductive Action where
  | advance (later : Instant)
  | begin (p : Preparation)
  | abandon (p : Preparation)
  | prepare (p : Preparation) (transaction : ℕ) (id : Uuid) (answers : Answers)
  | dispatch (source : Uuid) (request : FetchRequest) (id : Uuid) (at' : Instant) (transaction : ℕ) (answers : Answers)
  | headers (source : Uuid) (request : FetchRequest) (id : Uuid) (at' : Instant) (status : ℤ) (evidence : ResponseHeaders)
      (answers : Answers)
  | finish (source : Uuid) (request : FetchRequest) (id : Uuid) (ending : Ending) (captured : Bool) (answers : Answers)
  | recover (id : Uuid) (owned : Bool) (answers : Answers)

section System

variable (descriptorOf : Uuid → ProviderDescriptor) (requestOf : Uuid → Option Uuid)

/-- The state after a call; a call that raises leaves the tables as they were. -/
def State.after (s : State) : Action → State
  | .advance later => { s with now := later }
  | .begin p => { s with waiting := s.waiting ++ [{ p with started := s.now }] }
  | .abandon p => { s with waiting := s.waiting.erase p }
  | .prepare p transaction id answers =>
    match Provider.prepare descriptorOf requestOf s.attempts s.now transaction id p answers with
    | .ok (attempts, _) => { s with attempts, waiting := s.waiting.erase p }
    | .error _ => { s with waiting := s.waiting.erase p }
  | .dispatch source request id at' transaction answers =>
    match Provider.dispatched descriptorOf requestOf s.attempts transaction source request id at' answers with
    | .ok attempts => { s with attempts, dispatches := s.dispatches ++ [⟨id, source, s.now⟩] }
    | .error _ => s
  | .headers source request id at' status evidence answers =>
    match Provider.headers descriptorOf s.attempts source request id at' status evidence answers with
    | .ok attempts => { s with attempts }
    | .error _ => s
  | .finish source request id ending captured answers =>
    match Provider.finish descriptorOf s.attempts source request id ending captured answers with
    | .ok attempts => { s with attempts }
    | .error _ => s
  | .recover id owned answers =>
    match ingestionRecover answers.trigger s.attempts s.now owned id with
    | .ok (attempts, _) => { s with attempts }
    | .error _ => s

/-- An action is possible: the clock does not go back, and only a preparation that waits is given the lock. -/
def State.Allows (s : State) : Action → Prop
  | .advance later => s.now ≤ later
  | .prepare p _ _ _ => p ∈ s.waiting
  | _ => True

instance (s : State) (action : Action) : Decidable (s.Allows action) := by
  cases action <;> unfold State.Allows <;> infer_instance

/-- The state after calls one after the other. -/
def State.afterAll (s : State) (actions : List Action) : State := actions.foldl (State.after descriptorOf requestOf) s

/-- The actions are possible one after the other. -/
def State.AllowsAll (s : State) : List Action → Prop
  | [] => True
  | action :: actions => s.Allows action ∧ State.AllowsAll (s.after descriptorOf requestOf action) actions

/-- No attempts. -/
def noAttempts : Attempts := ⟨[], attemptsValid_nil⟩

/-- The store starts without attempts, and nobody waits. -/
def system : System State Action where
  initial s := s.attempts = noAttempts ∧ s.waiting = [] ∧ s.dispatches = []
  step s action s' := s.Allows action ∧ s' = s.after descriptorOf requestOf action

variable {descriptorOf requestOf}

/-- A state that possible actions lead to is reachable. -/
theorem reachable_afterAll {s : State} (hs : (system descriptorOf requestOf).Reachable s) {actions : List Action}
    (h : s.AllowsAll descriptorOf requestOf actions) :
    (system descriptorOf requestOf).Reachable (s.afterAll descriptorOf requestOf actions) := by
  induction actions generalizing s with
  | nil => exact hs
  | cons action actions ih => exact ih (.step hs ⟨h.1, rfl⟩) h.2

end System

end EquityEval.Provider
