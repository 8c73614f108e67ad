import EquityEval.Workflow.Database
import Mathlib.Data.List.MinMax
import Mathlib.Data.Prod.Lex

/-!
# Claims, leases and stages

A worker claims an execution and gets a lease for it. Every later call presents the lease, and
`workflowLockedLease` refuses it unless it is that of the request's current execution and has not
expired. A lost execution is closed and followed by another one until the attempts are used up.
A function runs at one reading of the clock; a raised error undoes its writes.
-/

namespace EquityEval.Workflow

open Relational

-- the order of the integers that computes, also where the reals are imported
instance (priority := 2000) : LinearOrder Instant := Int.instLinearOrder
instance (priority := 2000) : Preorder Instant := Int.instLinearOrder.toPreorder

/-- A lease as its holder presents it. -/
structure Lease where
  requestId : Uuid
  executionId : Uuid
  epoch : ℕ
  fencingToken : ℕ
  workerId : String
deriving DecidableEq, Repr

/-- A text that states a reason. -/
def Reason : Type := {text : String // ¬ Blank (some text)}

namespace Reason

/-- A given text, unless it is blank. -/
def ofText (text : Option String) : Option Reason :=
  match text with
  | none => none
  | some text => if h : ¬ Blank (some text) then some ⟨text, h⟩ else none

/-- The reason of an execution whose lease expired. -/
def leaseExpired : Reason := ⟨"lease_expired", by decide⟩

/-- The reason of a request that its user cancelled. -/
def userCancelled : Reason := ⟨"user_cancelled", by decide⟩

/-- The closure of a stage attempt that ends with a reason. -/
def closure (reason : Reason) (outcome : StageOutcome) (now : Instant) : StageClosure :=
  ⟨outcome, now, some reason.val, Or.inr reason.property⟩

end Reason

/-- The error of a lease whose request has moved on. -/
def leaseSuperseded : SqlError :=
  ⟨.objectNotInPrerequisiteState, "lease lost: request attempt superseded or terminal"⟩

/-- The error of a lease whose worker lost the execution. -/
def leaseExpired : SqlError :=
  ⟨.objectNotInPrerequisiteState, "lease lost: worker expired or no longer owns execution"⟩

/-- The execution that a lease holds. -/
def workflowLockedLease (db : Database) (now : Instant) (lease : Lease) : Except SqlError Execution := do
  let control ← orRaise (db.requestState? lease.requestId) leaseSuperseded
  raiseIf (control.terminalOutcome ≠ none ∨ control.currentExecutionId ≠ lease.executionId ∨
    control.attemptEpoch ≠ lease.epoch) leaseSuperseded
  let execution ← orRaise (db.execution? control.currentExecutionId) leaseExpired
  match execution.state with
  | .running leaseOwner leaseExpiresAt =>
    raiseIf (leaseOwner ≠ lease.workerId ∨ execution.fencingToken ≠ lease.fencingToken ∨
      leaseExpiresAt ≤ now ∨ execution.cancellationRequestedAt ≠ none) leaseExpired
    return execution
  | _ => throw leaseExpired

/-- Fail the current execution of a request, and queue another one while attempts are left. -/
def workflowCloseRetry (db : Database) (now : Instant) (execution : Uuid) (error : Reason) (delay : ℤ)
    (following : Uuid) : Except SqlError (Database × Option Uuid) := do
  let previous ← orRaise (db.execution? execution) ⟨.foreignKeyViolation, "unknown execution"⟩
  let request ← orRaise (db.request? previous.requestId) ⟨.foreignKeyViolation, "unknown request"⟩
  let db ← db.closeStages (fun s => s.executionId = execution ∧ s.Running) fun s =>
    { s with closure := some (error.closure .failed now) }
  let db ← db.updateExecution execution fun e =>
    { e with state := .ended .failed, finishedAt := some now, errorCode := some error.val, currentStage := none }
  if request.options.maxAttempts ≤ previous.attemptNo then
    let db ← db.updateRequestState previous.requestId fun c =>
      { c with terminalOutcome := some .failed, attemptEpoch := c.attemptEpoch + 1 }
    let db ← db.workflowEvent execution (.retryExhausted error.val)
    return (db, none)
  else
    let db ← db.insertExecution
      { id := following, requestId := previous.requestId, attemptNo := previous.attemptNo + 1, state := .queued,
        availableAt := now + seconds delay }
    let db ← db.updateRequestState previous.requestId fun c =>
      { c with currentExecutionId := following, attemptEpoch := c.attemptEpoch + 1 }
    let db ← db.workflowEvent execution (.retryScheduled error.val following delay)
    let db ← db.workflowEvent following (.requeued execution)
    return (db, some following)

/-- The lease of an execution and when it expires. -/
def workflowLeaseResult (db : Database) (execution : Uuid) : Option (Lease × Instant) := do
  let e ← db.execution? execution
  let control ← db.requestState? e.requestId
  match e.state with
  | .running leaseOwner leaseExpiresAt =>
    some (⟨e.requestId, e.id, control.attemptEpoch, e.fencingToken, leaseOwner⟩, leaseExpiresAt)
  | _ => none

/-! ### Claims -/

/-- A request that a claim may take, with its state and its current execution. -/
structure Candidate where
  request : AnalysisRequest
  control : RequestState
  execution : Execution

/-- The execution is queued and available, or its lease has expired. -/
def Execution.due (e : Execution) (now : Instant) : Bool :=
  match e.state with
  | .queued => decide (e.availableAt ≤ now)
  | .running _ leaseExpiresAt => decide (leaseExpiresAt ≤ now)
  | _ => false

/-- The requests that a claim selects and other transactions do not hold locked. -/
def candidates (db : Database) (now : Instant) (selects : AnalysisRequest → Bool) (locked : Uuid → Bool) :
    List Candidate :=
  db.requestStates.rows.filterMap fun control => do
    let execution ← db.execution? control.currentExecutionId
    let request ← db.request? control.requestId
    if selects request ∧ ¬ locked request.id ∧ control.terminalOutcome = none ∧ execution.due now then
      some ⟨request, control, execution⟩
    else
      none

/-- The candidate that is available first, by the sequence of requests if several are. -/
def nextCandidate (db : Database) (now : Instant) (selects : AnalysisRequest → Bool) (locked : Uuid → Bool) :
    Option Candidate :=
  (candidates db now selects locked).argmin fun c => toLex (c.execution.availableAt, c.request.requestSequence)

/-- Give an execution to a worker. -/
def claimExecution (db : Database) (now : Instant) (execution : Uuid) (worker : String) (duration : ℤ) :
    Except SqlError (Database × Option (Lease × Instant)) := do
  let db ← db.updateExecution execution fun e =>
    { e with
      state := .running worker (now + seconds duration), fencingToken := e.fencingToken + 1, startedAt := some now }
  let db ← db.workflowEvent execution (.claimed worker)
  return (db, workflowLeaseResult db execution)

/-- Take candidates until one is claimed or none is left; an expired one is first closed. -/
def claimLoop (now : Instant) (selects : AnalysisRequest → Bool) (locked : Uuid → Bool) (worker : String)
    (duration : ℤ) (following : Uuid) : ℕ → Database → Except SqlError (Database × Option (Lease × Instant))
  | 0, db => return (db, none)
  | rounds + 1, db =>
    match nextCandidate db now selects locked with
    | none => return (db, none)
    | some candidate =>
      if candidate.execution.state.isRunning then do
        let (db, next) ← workflowCloseRetry db now candidate.execution.id .leaseExpired 0 following
        match next with
        | none => claimLoop now selects locked worker duration following rounds db
        | some next => claimExecution db now next worker duration
      else
        claimExecution db now candidate.execution.id worker duration

/-- The error of a claim. -/
def invalidClaim : SqlError := ⟨.invalidParameterValue, "invalid worker or lease duration"⟩

/-- Claim an execution of a request that the claim selects. -/
def claimSelected (db : Database) (now : Instant) (selects : AnalysisRequest → Bool) (locked : Uuid → Bool)
    (worker : String) (duration : ℤ) (following : Uuid) : Except SqlError (Database × Option (Lease × Instant)) := do
  raiseIf (¬ (1 ≤ trimmedLength worker ∧ trimmedLength worker ≤ 200) ∨ ¬ (1 ≤ duration ∧ duration ≤ 3600)) invalidClaim
  claimLoop now selects locked worker duration following (db.requestStates.rows.length + 1) db

/-- The claims that `workflow_claim_kind` selects. -/
def claimKindSelects (bootstrap : Bool) (request : Option Uuid) (r : AnalysisRequest) : Bool :=
  r.trigger ≠ .secFilingMonitor ∧ decide (r.trigger = .sourceBootstrap) = bootstrap ∧ request.all (r.id = ·)

/-- The claims that `workflow_claim_monitor` selects. -/
def claimMonitorSelects (request : Option Uuid) (r : AnalysisRequest) : Bool :=
  r.trigger = .secFilingMonitor ∧ request.all (r.id = ·)

/-- Claim an execution of an analysis. -/
def workflowClaim (db : Database) (now : Instant) (locked : Uuid → Bool) (worker : String) (duration : ℤ)
    (following : Uuid) : Except SqlError (Database × Option (Lease × Instant)) :=
  claimSelected db now (claimKindSelects false none) locked worker duration following

/-- Claim an execution of a bootstrap. -/
def workflowClaimBootstrap (db : Database) (now : Instant) (request : Option Uuid) (locked : Uuid → Bool)
    (worker : String) (duration : ℤ) (following : Uuid) : Except SqlError (Database × Option (Lease × Instant)) :=
  claimSelected db now (claimKindSelects true request) locked worker duration following

/-- Claim an execution of a filing monitor. -/
def workflowClaimMonitor (db : Database) (now : Instant) (request : Option Uuid) (locked : Uuid → Bool)
    (worker : String) (duration : ℤ) (following : Uuid) : Except SqlError (Database × Option (Lease × Instant)) :=
  claimSelected db now (claimMonitorSelects request) locked worker duration following

/-! ### Calls that present a lease -/

/-- Renew a lease. -/
def workflowRenew (db : Database) (now : Instant) (lease : Lease) (duration : ℤ) :
    Except SqlError (Database × Option (Lease × Instant)) := do
  raiseIf (¬ (1 ≤ duration ∧ duration ≤ 3600)) ⟨.invalidParameterValue, "invalid lease duration"⟩
  let execution ← workflowLockedLease db now lease
  let db ← db.updateExecution execution.id fun e =>
    match e.state with
    | .running leaseOwner _ => { e with state := .running leaseOwner (now + seconds duration) }
    | _ => e
  let db ← db.workflowEvent execution.id .leaseRenewed
  return (db, workflowLeaseResult db execution.id)

/-- `stage_key ~ '^<start>[a-f0-9]{24}$'`. -/
def hasDigest (start : String) (key : String) : Bool :=
  let digits := key.toList.drop start.length
  key.toList.take start.length = start.toList ∧ digits.length = 24 ∧
    digits.all fun c => c.isDigit || ('a' ≤ c && c ≤ 'f')

/-- The triggers that refuse the stages of a bootstrap and of a filing monitor. -/
def stageGuard (db : Database) (execution : Uuid) (key : String) : Except SqlError Unit :=
  match (db.execution? execution).bind fun e => db.request? e.requestId with
  | none => return ()
  | some request => do
    raiseIf (request.trigger = .sourceBootstrap ∧
      key ∉ ["sec_inventory_parse", "sec_inventory", "sec_bootstrap_manifest"] ∧
      ¬ hasDigest "sec_fetch_" key ∧ ¬ hasDigest "sec_parse_" key)
      ⟨.checkViolation, "bootstrap permits SEC capture and inventory stages only"⟩
    raiseIf (request.trigger = .secFilingMonitor ∧ key ≠ "sec_monitor_result" ∧ ¬ hasDigest "sec_fetch_" key)
      ⟨.checkViolation, "monitor permits only Submissions acquisition and comparison"⟩

/-- Start a stage attempt. -/
def workflowStartStage (db : Database) (now : Instant) (lease : Lease) (key : String) (stage : Uuid) :
    Except SqlError (Database × Uuid) := do
  let execution ← workflowLockedLease db now lease
  let attempt := nextNumber (((db.stagesOf execution.id).filter (·.stageKey = key)).map (·.attemptNo))
  stageGuard db execution.id key
  let stages ← db.stages.insert
    { id := stage, executionId := execution.id, stageKey := key, attemptNo := attempt, startedAt := now }
    (violates "analysis_stage_attempts")
  let db ← { db with stages }.updateExecution execution.id fun e => { e with currentStage := some key }
  let db ← db.workflowEvent execution.id (.stageStarted stage key)
  return (db, stage)

/-- The key of the running stage attempt that started first. -/
def runningStage (db : Database) (execution : Uuid) : Option String :=
  (((db.stagesOf execution).filter fun s => decide s.Running).argmin (·.startedAt)).map (·.stageKey)

/-- The execution is one of a filing monitor. -/
def ofMonitor (db : Database) (execution : Uuid) : Prop :=
  ∃ e ∈ db.execution? execution, ∃ r ∈ db.request? e.requestId, r.trigger = .secFilingMonitor

instance (db : Database) (execution : Uuid) : Decidable (ofMonitor db execution) := by
  unfold ofMonitor
  infer_instance

/-- The trigger that refuses the completion of a monitor's stage with an error or without its result. -/
def monitorStageGuard (db : Database) (s : StageAttempt) : Except SqlError Unit := do
  raiseIf (ofMonitor db s.executionId ∧ s.Completed ∧ (s.closure.bind (·.errorCode)) ≠ none)
    ⟨.checkViolation, "successful monitor cannot carry error fields"⟩
  raiseIf (ofMonitor db s.executionId ∧ s.Completed ∧ s.stageKey = "sec_monitor_result" ∧ s.resultReference = none)
    ⟨.checkViolation, "monitor requires typed result"⟩

/-- End a stage attempt; `reusable` tells which captures are there and successful. -/
def workflowFinishStage (db : Database) (now : Instant) (lease : Lease) (stage : Uuid)
    (outcome : Option StageOutcome) (reason : Option String) (reused : List Uuid) (reusable : Uuid → Bool) :
    Except SqlError (Database × Bool) := do
  let execution ← workflowLockedLease db now lease
  let invalid : SqlError := ⟨.invalidParameterValue, "invalid stage outcome or missing reason"⟩
  let outcome ← orRaise outcome invalid
  if h : outcome = .completed ∨ ¬ Blank reason then
    raiseIf (∃ capture ∈ reused, ¬ reusable capture)
      ⟨.foreignKeyViolation, "reused capture is missing or not successful"⟩
    let ended : StageAttempt → StageAttempt := fun s =>
      { s with closure := some ⟨outcome, now, reason, h⟩, reusedCaptureIds := reused }
    let found ← orRaise (db.stages.rows.find? fun s =>
      decide (s.id = stage ∧ s.executionId = execution.id ∧ s.Running))
      ⟨.objectNotInPrerequisiteState, "stage is not an active stage of this execution"⟩
    monitorStageGuard db (ended found)
    let db ← db.closeStages (fun s => s.id = stage ∧ s.executionId = execution.id ∧ s.Running) ended
    let db ← db.updateExecution execution.id fun e => { e with currentStage := runningStage db execution.id }
    let db ← db.workflowEvent execution.id (.stageFinished stage outcome reason)
    return (db, true)
  else
    throw invalid

/-- The trigger that refuses the success of a monitor without a matching result. -/
def monitorExecutionGuard (db : Database) (execution : Uuid) (outcome : Outcome) (reason : Option String) :
    Except SqlError Unit :=
  if ofMonitor db execution ∧ outcome ∈ [.completed, .completedWithGaps] then do
    raiseIf (reason ≠ none) ⟨.checkViolation, "successful monitor cannot carry error fields"⟩
    let mismatch : SqlError := ⟨.checkViolation, "monitor execution needs matching typed result"⟩
    let stage ← orRaise ((db.stagesOf execution).find? fun s =>
      decide (s.stageKey = "sec_monitor_result" ∧ s.Completed)) mismatch
    let result ← orRaise stage.resultReference mismatch
    raiseIf ((outcome = .completed ∧ ¬ result.baselineEligible) ∨
      (outcome = .completedWithGaps ∧ result.outcome ≠ .incomplete)) mismatch
  else
    return ()

/-- End an execution and its request. -/
def workflowFinish (db : Database) (now : Instant) (lease : Lease) (outcome : Option Outcome)
    (reason : Option String) : Except SqlError (Database × Bool) := do
  let execution ← workflowLockedLease db now lease
  let invalid : SqlError := ⟨.invalidParameterValue, "invalid terminal outcome"⟩
  let outcome ← orRaise outcome invalid
  raiseIf (outcome = .cancelled) invalid
  raiseIf (∃ s ∈ db.stagesOf execution.id, s.Running)
    ⟨.objectNotInPrerequisiteState, "cannot finish while a stage is running"⟩
  raiseIf (outcome = .completed ∧ ∃ s ∈ db.stagesOf execution.id, ¬ s.Completed)
    ⟨.objectNotInPrerequisiteState, "a gapped stage cannot become a complete analysis"⟩
  raiseIf (outcome ∈ [.failed, .waitingForInput] ∧ Blank reason)
    ⟨.invalidParameterValue, "terminal outcome requires a reason"⟩
  monitorExecutionGuard db execution.id outcome reason
  let db ← db.updateExecution execution.id fun e =>
    { e with state := .ended outcome, finishedAt := some now, currentStage := none, errorCode := reason }
  let db ← db.updateRequestState execution.requestId fun c => { c with terminalOutcome := some outcome }
  let db ← db.workflowEvent execution.id (.finished outcome reason)
  return (db, true)

/-- Give an execution up for another one. -/
def workflowRetry (db : Database) (now : Instant) (lease : Lease) (error : Option String) (delay : ℤ)
    (following : Uuid) : Except SqlError (Database × Option Uuid) := do
  let refused : SqlError := ⟨.invalidParameterValue, "retry requires an error and bounded delay"⟩
  raiseIf (¬ (0 ≤ delay ∧ delay ≤ 86400)) refused
  let error ← orRaise (Reason.ofText error) refused
  let execution ← workflowLockedLease db now lease
  workflowCloseRetry db now execution.id error delay following

/-- Cancel a request, whoever holds it. -/
def workflowCancel (db : Database) (now : Instant) (request : Uuid) : Except SqlError (Database × Bool) := do
  let control ← orRaise (db.requestState? request) ⟨.foreignKeyViolation, "unknown request"⟩
  if control.terminalOutcome ≠ none then
    return (db, false)
  else
    let execution := control.currentExecutionId
    let db ← db.closeStages (fun s => s.executionId = execution ∧ s.Running) fun s =>
      { s with closure := some (Reason.userCancelled.closure .cancelled now) }
    let db ← db.updateExecution execution fun e =>
      { e with
        state := .ended .cancelled, finishedAt := some now, cancellationRequestedAt := some now,
        currentStage := none, errorCode := some Reason.userCancelled.val }
    let db ← db.updateRequestState request fun c =>
      { c with terminalOutcome := some .cancelled, attemptEpoch := c.attemptEpoch + 1 }
    let db ← db.workflowEvent execution .cancelled
    return (db, true)

end EquityEval.Workflow
