import EquityEval.Relational.Table

/-!
# The tables of the workflow

Requests ask for an analysis of a security. A request has executions, one after the other; an
execution has stage attempts and events. The state of a request points at its current execution.
Instants are microseconds and dates are day numbers, both counted from the same midnight in UTC.
The constraints of a table are those that its definition declares.
-/

namespace EquityEval.Workflow

open Relational

/-- An identifier made by `gen_random_uuid`. -/
abbrev Uuid : Type := ℕ

/-- A time stamp. -/
abbrev Instant : Type := ℤ

/-- A calendar day. -/
abbrev Day : Type := ℤ

/-- A number of seconds, as a difference of instants. -/
def seconds (n : ℤ) : ℤ := n * 1000000

/-- The class of a raised error. -/
inductive SqlState where
  | invalidParameterValue
  | foreignKeyViolation
  | checkViolation
  | constraintViolation
  | objectNotInPrerequisiteState
  | serializationFailure
deriving DecidableEq, Repr

/-- An error that ends a function and undoes its writes. -/
structure SqlError where
  state : SqlState
  message : String
deriving DecidableEq, Repr

/-- The error of a write that breaks a constraint of a table. -/
def violates (table : String) : SqlError := ⟨.constraintViolation, table⟩

/-- `length(trim(text))`. -/
def trimmedLength (text : String) : ℕ :=
  ((text.toList.dropWhile (· = ' ')).reverse.dropWhile (· = ' ')).length

/-- `coalesce(length(trim(text)),0)=0`. -/
abbrev Blank (text : Option String) : Prop := text.elim 0 trimmedLength = 0

/-- The text of a `length(key) BETWEEN 1 AND 200`. -/
abbrev KeyLength (key : String) : Prop := 1 ≤ key.length ∧ key.length ≤ 200

/-- `stage_key ~ '^[a-z][a-z0-9_]{0,79}$'`. -/
def stageKeyValid (key : String) : Bool :=
  match key.toList with
  | [] => false
  | first :: rest =>
      first.isLower && rest.length ≤ 79 && rest.all fun c => c.isLower || c.isDigit || c = '_'

/-! ### Watchlists -/

/-- A row of `workspaces`. -/
structure Workspace where
  id : Uuid
deriving DecidableEq, Repr

/-- A row of `watchlists`. -/
structure Watchlist where
  id : Uuid
  workspaceId : Uuid
deriving DecidableEq, Repr

/-- A row of `watchlist_memberships`. -/
structure Membership where
  id : Uuid
  watchlistId : Uuid
  securityId : Uuid
  quoteIdentifierId : Uuid
  addedAt : Instant
  removedAt : Option Instant := none
  generation : ℕ
deriving DecidableEq, Repr

/-- The membership has not been removed. -/
abbrev Membership.Active (m : Membership) : Prop := m.removedAt = none

/-- The watchlist and the security of a membership. -/
def Membership.stock (m : Membership) : Uuid × Uuid := (m.watchlistId, m.securityId)

/-- The constraints of `watchlist_memberships`. -/
abbrev MembershipsValid (rows : List Membership) : Prop :=
  UniqueBy Membership.id rows ∧ UniqueBy (fun m => (m.stock, m.generation)) rows ∧
    UniqueBy Membership.stock (rows.filter fun m => decide m.Active) ∧
    ∀ m ∈ rows, 0 < m.generation ∧ ∀ removed ∈ m.removedAt, m.addedAt ≤ removed

/-! ### Requests -/

/-- Why a request was made. -/
inductive Trigger where
  | watchlistAdd
  | manualRefresh
  | sourceBootstrap
  | secFilingMonitor
deriving DecidableEq, Repr

/-- The history that a request asks for; `other` stands for a text that the table refuses. -/
inductive HistoryMode where
  | latestReported
  | asFiledByDate
  | originalAsFiled
  | other (text : String)
deriving DecidableEq, Repr

/-- The kind of a requested period; `other` stands for a text that the trigger refuses. -/
inductive PeriodKind where
  | instant
  | duration
  | other (text : String)
deriving DecidableEq, Repr

/-- A requested period. -/
structure RequestedPeriod where
  kind : PeriodKind
  start : Option Day
  finish : Option Day
deriving DecidableEq, Repr

/-- A market plan as `market_request_plan` returns it. -/
structure MarketPlan where
  priceSourceId : Option Uuid
  priceStart : Option Day
  priceEnd : Option Day
  macroSourceId : Option Uuid
  macroSeriesKeys : Option (List String)
  macroStart : Option Day
  macroEnd : Option Day
  macroSourceAsOfDate : Option Day
deriving DecidableEq, Repr

/-- The normalized options of a request. -/
structure RequestOptions where
  historyMode : HistoryMode := .latestReported
  filedCutoff : Option Day := none
  requestedPeriods : List RequestedPeriod := []
  retrievalVintage : Option Instant := none
  maxAttempts : ℤ
  marketPlan : Option MarketPlan := none
deriving DecidableEq, Repr

/-- How a baseline of filings was established. -/
inductive BaselineKind where
  | initialSeed
  | priorMonitorResult
deriving DecidableEq, Repr

/-- The result that later filings are compared with. -/
structure Baseline where
  kind : BaselineKind
  requestId : Uuid
  executionId : Uuid
  manifestSha256 : String
  cutoff : Instant
  version : String
  seedApprovalId : Option Uuid
  planSha256 : Option String
  captureId : Option Uuid
  manifestId : Option Uuid
deriving DecidableEq, Repr

/-- The plan of a filing monitor request. -/
structure MonitorPlan where
  version : String
  issuerId : Uuid
  cik : String
  sourceId : Uuid
  policyRevisionId : Uuid
  inventoryStart : Day
  inventoryEnd : Day
  cutoff : Instant
  forms : List String
  resources : List String
  baseline : Baseline
deriving DecidableEq, Repr

/-- A row of `analysis_requests`. -/
structure AnalysisRequest where
  id : Uuid
  workspaceId : Uuid
  securityId : Uuid
  quoteIdentifierId : Option Uuid
  trigger : Trigger
  membershipId : Option Uuid
  parentRequestId : Option Uuid
  requestSequence : ℕ
  idempotencyKey : String
  options : RequestOptions
  parametersHash : String
  filingMonitorPlan : Option MonitorPlan := none
deriving DecidableEq, Repr

/-- The checks of a row of `analysis_requests`. -/
abbrev AnalysisRequest.Checked (r : AnalysisRequest) : Prop :=
  (r.trigger = .watchlistAdd ↔ r.membershipId ≠ none) ∧ r.parentRequestId ≠ some r.id ∧
    KeyLength r.idempotencyKey ∧ 1 ≤ r.options.maxAttempts ∧ r.options.maxAttempts ≤ 10 ∧
    r.options.historyMode ∈ [.latestReported, .asFiledByDate, .originalAsFiled] ∧
    (r.options.historyMode = .asFiledByDate → r.options.filedCutoff ≠ none) ∧
    (r.options.historyMode = .latestReported → r.options.filedCutoff = none) ∧
    (r.quoteIdentifierId = none ↔ r.trigger ∈ [.sourceBootstrap, .secFilingMonitor]) ∧
    (r.filingMonitorPlan = none ↔ r.trigger ≠ .secFilingMonitor)

/-- The constraints of `analysis_requests`. -/
abbrev RequestsValid (rows : List AnalysisRequest) : Prop :=
  UniqueBy AnalysisRequest.id rows ∧ UniqueBy (fun r => (r.workspaceId, r.idempotencyKey)) rows ∧
    UniqueBy AnalysisRequest.membershipId (rows.filter fun r => decide (r.trigger = .watchlistAdd)) ∧
    ∀ r ∈ rows, r.Checked

/-- A row of `analysis_request_keys`. -/
structure RequestKey where
  workspaceId : Uuid
  idempotencyKey : String
  requestId : Uuid
  parametersHash : String
deriving DecidableEq, Repr

/-- What identifies a key. -/
def RequestKey.identity (k : RequestKey) : Uuid × String := (k.workspaceId, k.idempotencyKey)

/-- The constraints of `analysis_request_keys`. -/
abbrev KeysValid (rows : List RequestKey) : Prop :=
  UniqueBy RequestKey.identity rows ∧ ∀ k ∈ rows, KeyLength k.idempotencyKey

/-! ### Executions -/

/-- The outcomes that end a request. -/
inductive Outcome where
  | completed
  | completedWithGaps
  | waitingForInput
  | failed
  | cancelled
deriving DecidableEq, Repr

/-- The state of an execution; a running one has a lease, and only a running one. -/
inductive ExecutionState where
  | queued
  | running (leaseOwner : String) (leaseExpiresAt : Instant)
  | retryScheduled
  | ended (outcome : Outcome)
deriving DecidableEq, Repr

/-- The execution is queued or running. -/
def ExecutionState.isOpen : ExecutionState → Bool
  | queued => true
  | running _ _ => true
  | _ => false

/-- The execution is running. -/
def ExecutionState.isRunning : ExecutionState → Bool
  | running _ _ => true
  | _ => false

/-- A row of `analysis_executions`. -/
structure Execution where
  id : Uuid
  requestId : Uuid
  attemptNo : ℕ
  state : ExecutionState
  currentStage : Option String := none
  availableAt : Instant
  fencingToken : ℕ := 0
  cancellationRequestedAt : Option Instant := none
  startedAt : Option Instant := none
  finishedAt : Option Instant := none
  errorCode : Option String := none
deriving DecidableEq, Repr

/-- The constraints of `analysis_executions`. -/
abbrev ExecutionsValid (rows : List Execution) : Prop :=
  UniqueBy Execution.id rows ∧ UniqueBy (fun e => (e.requestId, e.attemptNo)) rows ∧
    ∀ e ∈ rows, 0 < e.attemptNo ∧ (e.finishedAt = none ∨ e.state.isOpen = false)

/-- A row of `analysis_request_state`. -/
structure RequestState where
  requestId : Uuid
  currentExecutionId : Uuid
  attemptEpoch : ℕ
  terminalOutcome : Option Outcome := none
deriving DecidableEq, Repr

/-- The constraints of `analysis_request_state`. -/
abbrev RequestStatesValid (rows : List RequestState) : Prop :=
  UniqueBy RequestState.requestId rows ∧ ∀ c ∈ rows, 0 < c.attemptEpoch

/-- The outcomes of a stage attempt. -/
inductive StageOutcome where
  | completed
  | blocked
  | unsupported
  | failed
  | cancelled
deriving DecidableEq, Repr

/-- How a stage attempt ended; any outcome but a completion has a reason. -/
structure StageClosure where
  outcome : StageOutcome
  finishedAt : Instant
  errorCode : Option String
  explained : outcome = .completed ∨ ¬ Blank errorCode
deriving DecidableEq, Repr

/-- A completion needs no reason. -/
theorem completed_explained : StageOutcome.completed = .completed ∨ ¬ Blank none := Or.inl rfl

/-- What a filing monitor concluded. -/
inductive MonitorOutcome where
  | noChange
  | newFiling
  | amendment
  | mixedChanges
  | incomplete
  | error
deriving DecidableEq, Repr

/-- The typed result of a filing monitor. -/
structure MonitorResult where
  outcome : MonitorOutcome
  baselineEligible : Bool
  flags : List String
  manifestId : Uuid
  manifestSha256 : String
  checkedAt : Option Instant
deriving DecidableEq, Repr

/-- A row of `analysis_stage_attempts`; it is running until it has a closure. -/
structure StageAttempt where
  id : Uuid
  executionId : Uuid
  stageKey : String
  attemptNo : ℕ
  startedAt : Instant
  closure : Option StageClosure := none
  reusedCaptureIds : List Uuid := []
  resultReference : Option MonitorResult := none
deriving DecidableEq, Repr

namespace StageAttempt

/-- The stage attempt is running. -/
abbrev Running (s : StageAttempt) : Prop := s.closure = none

/-- The stage attempt is completed. -/
abbrev Completed (s : StageAttempt) : Prop := s.closure.map (·.outcome) = some .completed

/-- The execution and the key of a stage attempt. -/
def stage (s : StageAttempt) : Uuid × String := (s.executionId, s.stageKey)

end StageAttempt

/-- The constraints of `analysis_stage_attempts`. -/
abbrev StagesValid (rows : List StageAttempt) : Prop :=
  UniqueBy StageAttempt.id rows ∧ UniqueBy (fun s => (s.stage, s.attemptNo)) rows ∧
    UniqueBy StageAttempt.stage (rows.filter fun s => decide s.Running) ∧
    UniqueBy StageAttempt.executionId
      (rows.filter fun s => decide (s.stageKey = "sec_monitor_result" ∧ s.Completed)) ∧
    ∀ s ∈ rows, stageKeyValid s.stageKey ∧ 0 < s.attemptNo

/-- The kinds of events, with their details. -/
inductive EventKind where
  | queued (trigger : Trigger)
  | requeued (previousExecutionId : Uuid)
  | claimed (workerId : String)
  | leaseRenewed
  | stageStarted (stageId : Uuid) (stage : String)
  | stageFinished (stageId : Uuid) (outcome : StageOutcome) (reason : Option String)
  | finished (outcome : Outcome) (reason : Option String)
  | retryExhausted (errorCode : String)
  | retryScheduled (errorCode : String) (nextExecutionId : Uuid) (delaySeconds : ℤ)
  | cancelled
deriving DecidableEq, Repr

/-- A row of `execution_events`. -/
structure ExecutionEvent where
  executionId : Uuid
  eventSequence : ℕ
  eventKind : EventKind
deriving DecidableEq, Repr

/-- The constraints of `execution_events`. -/
abbrev EventsValid (rows : List ExecutionEvent) : Prop :=
  UniqueBy (fun e => (e.executionId, e.eventSequence)) rows ∧ ∀ e ∈ rows, 0 < e.eventSequence

/-! ### The database -/

/-- The tables of the workflow, and the next value of the request sequence. -/
structure Database where
  workspaces : Table Workspace (UniqueBy Workspace.id)
  watchlists : Table Watchlist (UniqueBy Watchlist.id)
  memberships : Table Membership MembershipsValid
  requests : Table AnalysisRequest RequestsValid
  keys : Table RequestKey KeysValid
  executions : Table Execution ExecutionsValid
  requestStates : Table RequestState RequestStatesValid
  stages : Table StageAttempt StagesValid
  events : Table ExecutionEvent EventsValid
  nextSequence : ℕ

namespace Database

/-- The tables before anything was written. -/
def empty : Database where
  workspaces := ⟨[], by decide⟩
  watchlists := ⟨[], by decide⟩
  memberships := ⟨[], by decide⟩
  requests := ⟨[], by decide⟩
  keys := ⟨[], by decide⟩
  executions := ⟨[], by decide⟩
  requestStates := ⟨[], by decide⟩
  stages := ⟨[], by decide⟩
  events := ⟨[], by decide⟩
  nextSequence := 1

variable (db : Database)

/-- The request with an identifier. -/
def request? (id : Uuid) : Option AnalysisRequest := db.requests.lookup AnalysisRequest.id id

/-- The execution with an identifier. -/
def execution? (id : Uuid) : Option Execution := db.executions.lookup Execution.id id

/-- The state of a request. -/
def requestState? (request : Uuid) : Option RequestState := db.requestStates.lookup RequestState.requestId request

/-- The stage attempt with an identifier. -/
def stage? (id : Uuid) : Option StageAttempt := db.stages.lookup StageAttempt.id id

/-- The executions of a request, in the order of their insertion. -/
def executionsOf (request : Uuid) : List Execution := db.executions.select (·.requestId = request)

/-- The stage attempts of an execution. -/
def stagesOf (execution : Uuid) : List StageAttempt := db.stages.select (·.executionId = execution)

/-- The events of an execution, in the order of their insertion. -/
def eventsOf (execution : Uuid) : List ExecutionEvent := db.events.select (·.executionId = execution)

/-- Update the execution with an identifier. -/
def updateExecution (id : Uuid) (f : Execution → Execution) : Except SqlError Database := do
  let executions ← db.executions.update (·.id = id) f (violates "analysis_executions")
  return { db with executions }

/-- Update the state of a request. -/
def updateRequestState (request : Uuid) (f : RequestState → RequestState) : Except SqlError Database := do
  let requestStates ← db.requestStates.update (·.requestId = request) f (violates "analysis_request_state")
  return { db with requestStates }

/-- Close the stage attempts that a condition selects. -/
def closeStages (condition : StageAttempt → Prop) [DecidablePred condition] (f : StageAttempt → StageAttempt) :
    Except SqlError Database := do
  let stages ← db.stages.update condition f (violates "analysis_stage_attempts")
  return { db with stages }

/-- Insert an execution. -/
def insertExecution (e : Execution) : Except SqlError Database := do
  let executions ← db.executions.insert e (violates "analysis_executions")
  return { db with executions }

/-- Append an event to those of an execution. -/
def workflowEvent (execution : Uuid) (kind : EventKind) : Except SqlError Database := do
  let sequence := nextNumber ((db.eventsOf execution).map (·.eventSequence))
  let events ← db.events.insert ⟨execution, sequence, kind⟩ (violates "execution_events")
  return { db with events }

end Database

end EquityEval.Workflow
