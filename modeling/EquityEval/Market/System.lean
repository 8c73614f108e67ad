import EquityEval.Market.Publication
import EquityEval.Transition.System

/-!
# Market data as a transition system

Capabilities are inserted, activated, replaced, disabled and updated; attempts are prepared, dispatched,
answered, ended and recovered; captures are archived and linked to policies; batches are published; the
clock advances and the workflow goes on. A call locks the rows that it decides on to the end of its
transaction, so each call is one step; a call that raises changes nothing.
-/

namespace EquityEval.Market

open Relational Workflow Ingestion TransitionSystem

/-- The clock and the tables. -/
structure State where
  now : Instant
  db : Database
  capabilities : Capabilities
  captures : Captures
  attempts : Attempts
  store : MarketStore

/-- The archived body of an attempt. -/
structure ArchivedBody where
  captureId : Uuid
  fetchedAt : Instant
  bodySha256 : String
  blobKey : String
  byteCount : ℤ
  contentType : Option String
deriving DecidableEq, Repr

/-- The capture of an attempt that ends with an archived body. -/
def attemptCapture (a : FetchAttempt) (requestedAt finishedAt : Instant) (body : ArchivedBody) : SourceCapture where
  id := body.captureId
  sourceId := a.sourceId
  sourceObjectKey := a.sourceObjectKey
  requestUrl := a.requestUrl
  requestParamsHash := a.requestParamsHash
  requestedAt := requestedAt
  completedAt := some finishedAt
  fetchedAt := some body.fetchedAt
  httpStatus := a.httpStatus
  bodySha256 := some body.bodySha256
  blobKey := some body.blobKey
  byteCount := some body.byteCount
  contentType := body.contentType.or (a.responseHeaders.lookup "content_type")
  policyRevisionId := some a.policyRevisionId

/-- A call of an attempt, with the answers of the leases and of the trigger that guards the attempts. -/
inductive AttemptCall where
  | prepare (transaction : ℕ) (id : Uuid) (lease : Lease) (stage : Uuid) (answer : StageAnswer) (request : AttemptRequest)
  | dispatch (transaction : ℕ) (lease : Lease) (answer : StageAnswer) (id : Uuid) (requestedAt : Instant)
  | headers (lease : Lease) (answer : StageAnswer) (id : Uuid) (receivedAt : Instant) (status : ℤ) (evidence : ResponseHeaders)
  | finalize (lease : Lease) (answer : StageAnswer) (id : Uuid) (ending : Ending) (body : Option ArchivedBody)
  | recover (owned : Bool) (id : Uuid)

/-- What happens in a step. -/
inductive Action where
  | advance (later : Instant)
  | workflow (db : Database)
  | insertCapability (new : Capability)
  | updateCapability (old new : Capability)
  | activate (policy : Uuid) (actor reason : String)
  | disable (policy : Uuid) (actor reason : String)
  | attempt (call : AttemptCall) (guard : RowTrigger)
  | capture (row : SourceCapture)
  | link (capture policy : Uuid)
  | publish (lease : Lease) (stage : Uuid) (bundle : MarketBundle) (references : References)

section Calls

variable (resources : Resources)

/-- The triggers of the table of attempts. -/
def State.trigger (s : State) (guard : RowTrigger) : RowTrigger := fun old new => do
  marketAttemptPolicyGuard resources s.capabilities s.now old new
  guard old new

/-- Insert a capture with its link to a policy. -/
def State.archive (s : State) (row : SourceCapture) : Except SqlError State := do
  let policy ← orRaise row.policyRevisionId ⟨.checkViolation, "new capture requires a matching policy link in its creation transaction"⟩
  marketCapturePolicyGuard resources s.capabilities s.now row policy
  let captures ← s.captures.insert row (violates "source_captures")
  return { s with captures }

/-- Link a capture to a policy. -/
def State.link (s : State) (capture policy : Uuid) : Except SqlError State := do
  let row ← orRaise (s.captures.lookup SourceCapture.id capture)
    ⟨.checkViolation, "capture policy source or review key mismatch"⟩
  raiseIf (row.policyRevisionId ≠ none) (violates "capture_policy_links")
  marketCapturePolicyGuard resources s.capabilities s.now row policy
  let captures ← s.captures.update (fun c => c.id = capture) (fun c => { c with policyRevisionId := some policy })
    (violates "source_captures")
  return { s with captures }

/-- Archive the body with which an attempt ends. -/
def State.archiveBody (s : State) (id : Uuid) (finishedAt : Instant) (body : Option ArchivedBody) : Except SqlError State :=
  match body with
  | none => return s
  | some body => do
    let a ← orRaise (s.attempts.lookup FetchAttempt.id id) ⟨.foreignKeyViolation, "unknown source attempt"⟩
    let requestedAt ← orRaise a.requestedAt (violates "source_captures")
    s.archive resources (attemptCapture a requestedAt finishedAt body)

/-- Run a call of an attempt. -/
def State.performAttempt (s : State) (guard : RowTrigger) : AttemptCall → Except SqlError State
  | .prepare transaction id lease stage answer request => do
    let (attempts, _) ← ingestionPrepare (s.trigger resources guard) s.attempts s.now transaction id lease stage answer request
    return { s with attempts }
  | .dispatch transaction lease answer id requestedAt => do
    let attempts ← ingestionDispatch (s.trigger resources guard) s.attempts transaction lease answer id requestedAt
    return { s with attempts }
  | .headers lease answer id receivedAt status evidence => do
    let attempts ← ingestionHeaders (s.trigger resources guard) s.attempts lease answer id receivedAt status evidence
    return { s with attempts }
  | .finalize lease answer id ending body => do
    raiseIf (ending.completedCaptureId ≠ body.map (·.captureId)) (violates "source_fetch_attempts")
    let s ← s.archiveBody resources id ending.finishedAt body
    let attempts ← ingestionFinalize (s.trigger resources guard) s.attempts lease answer true id ending
    return { s with attempts }
  | .recover owned id => do
    let (attempts, _) ← ingestionRecover (s.trigger resources guard) s.attempts s.now owned id
    return { s with attempts }

/-- What a publication reads. -/
def State.world (s : State) (references : References) : World :=
  { references with resources, now := s.now, db := s.db, capabilities := s.capabilities, captures := s.captures, attempts := s.attempts }

variable (resultText : ResultText)

/-- Publish a bundle. -/
def State.publish (s : State) (lease : Lease) (stage : Uuid) (bundle : MarketBundle) (references : References) :
    Except SqlError (State × PublishResult) := do
  let (db, store, result) ← marketPublish resultText (s.world resources references) s.store lease stage bundle
  return ({ s with db, store }, result)

/-- Run a call. -/
def State.perform (s : State) : Action → Except SqlError State
  | .advance later => return { s with now := later }
  | .workflow db => return { s with db }
  | .insertCapability new => do
    let capabilities ← insertCapability s.capabilities new
    return { s with capabilities }
  | .updateCapability old new => do
    raiseIf (old ∉ s.capabilities.rows) (violates "source_policy_capabilities")
    let capabilities ← updateCapability s.capabilities old new
    return { s with capabilities }
  | .activate policy actor reason => do
    let capabilities ← marketActivatePolicy s.capabilities s.now policy actor reason
    return { s with capabilities }
  | .disable policy actor reason => do
    let capabilities ← marketDisablePolicy s.capabilities s.now policy actor reason
    return { s with capabilities }
  | .attempt call guard => s.performAttempt resources guard call
  | .capture row => s.archive resources row
  | .link capture policy => s.link resources capture policy
  | .publish lease stage bundle references => do
    let (s, _) ← s.publish resources resultText lease stage bundle references
    return s

/-- The state after a call; a call that raises leaves it as it was. -/
def State.after (s : State) (action : Action) : State :=
  match s.perform resources resultText action with
  | .ok s' => s'
  | .error _ => s

/-- The clock does not go back. -/
def State.Allows (s : State) : Action → Prop
  | .advance later => s.now ≤ later
  | _ => True

/-- There are no capabilities, captures, attempts and batches. -/
def State.Initial (s : State) : Prop :=
  s.capabilities.rows = [] ∧ s.captures.rows = [] ∧ s.attempts.rows = [] ∧ s.store = .empty

/-- The system of market data. -/
def system : System State Action where
  initial := State.Initial
  step s action s' := s.Allows action ∧ s' = s.after resources resultText action

variable {resources resultText}

/-- A possible call leads to a reachable state. -/
theorem reachable_after {s : State} (hs : (system resources resultText).Reachable s) (action : Action) (h : s.Allows action) :
    (system resources resultText).Reachable (s.after resources resultText action) := hs.step ⟨h, rfl⟩

end Calls

end EquityEval.Market
