import EquityEval.Workflow.Enqueue

/-!
# Filing monitor requests

A filing monitor request carries a plan with the baseline that later filings are compared with.
Whether the issuer and its sources are registered, whether a seed was approved and whether the
captures bear a result out is recorded in tables that are not modelled; the functions take the
answers as arguments.
-/

namespace EquityEval.Workflow

open Relational

/-- `text ~ '^[a-f0-9]{64}$'`. -/
def isSha256 (text : String) : Bool :=
  text.length = 64 && text.toList.all fun c => c.isDigit || ('a' ≤ c && c ≤ 'f')

/-- The object key of the submissions of an issuer. -/
def submissionsKey (cik : String) : String := "submissions/" ++ cik

/-- The object key is one of the submission histories of an issuer. -/
def isSubmissionsHistory (cik key : String) : Bool :=
  let start := ("submissions_history/" ++ cik ++ "/CIK" ++ cik ++ "-submissions-").toList
  let digits := (key.toList.drop start.length).take 3
  key.toList.take start.length = start && digits.length = 3 && digits.all Char.isDigit &&
    key.toList.drop (start.length + 3) = ".json".toList

/-- The checks of a baseline within its plan. -/
def Baseline.valid (b : Baseline) (p : MonitorPlan) : Bool :=
  b.version = p.version && isSha256 b.manifestSha256 && decide (b.cutoff ≤ p.cutoff) &&
    match b.kind with
    | .initialSeed => b.manifestId.isNone && b.planSha256.any isSha256 && b.seedApprovalId.isSome && b.captureId.isSome
    | .priorMonitorResult =>
      b.seedApprovalId.isNone && b.planSha256.isNone && b.captureId.isNone && b.manifestId.isSome

/-- The checks of a filing monitor plan. -/
def workflowValidMonitorPlan (p : MonitorPlan) : Bool :=
  p.version = "sec-filing-monitor-v1" && p.cik.length = 10 && p.cik.toList.all Char.isDigit && p.cik ≠ "0000000000" &&
    decide (0 ≤ p.inventoryEnd - p.inventoryStart) && decide (p.inventoryEnd - p.inventoryStart ≤ 730) &&
    decide (p.inventoryStart ≤ dayOf p.cutoff) && decide (dayOf p.cutoff ≤ p.inventoryEnd) &&
    decide (1 ≤ p.forms.length) && decide (p.forms.length ≤ 4) && decide p.forms.Nodup &&
    p.forms.all (["10-Q", "10-K", "10-Q/A", "10-K/A"].contains ·) &&
    decide (1 ≤ p.resources.length) && decide (p.resources.length ≤ 11) && decide p.resources.Nodup &&
    p.resources.contains (submissionsKey p.cik) &&
    p.resources.all (fun key => key = submissionsKey p.cik || isSubmissionsHistory p.cik key) &&
    p.baseline.valid p

/-- A plan without its cutoff, baseline and resources. -/
structure MonitorScope where
  version : String
  issuerId : Uuid
  cik : String
  sourceId : Uuid
  policyRevisionId : Uuid
  inventoryStart : Day
  inventoryEnd : Day
  forms : List String
deriving DecidableEq, Repr

/-- The scope of a plan. -/
def workflowMonitorScope (p : MonitorPlan) : MonitorScope :=
  ⟨p.version, p.issuerId, p.cik, p.sourceId, p.policyRevisionId, p.inventoryStart, p.inventoryEnd, p.forms⟩

/-- The outcomes of a monitor that may become a baseline. -/
def MonitorOutcome.eligible : MonitorOutcome → Bool
  | noChange | newFiling | amendment | mixedChanges => true
  | incomplete | error => false

/-- The result that the completed monitor stage of an execution refers to. -/
def monitorResult (db : Database) (execution : Uuid) : Option MonitorResult :=
  ((db.stagesOf execution).find? fun s => decide (s.stageKey = "sec_monitor_result" ∧ s.Completed)).bind
    (·.resultReference)

/-- The baseline of a plan is a completed predecessor with the same scope. -/
def workflowMonitorBaseline (db : Database) (p : MonitorPlan) (security : Uuid) (seedApproved : Bool) :
    Except SqlError Unit := do
  raiseIf (¬ workflowValidMonitorPlan p) ⟨.invalidParameterValue, "invalid monitor plan"⟩
  let b := p.baseline
  let incomplete : SqlError := ⟨.checkViolation, "baseline needs exact terminal complete predecessor"⟩
  let r ← orRaise (db.request? b.requestId) incomplete
  let e ← orRaise (db.execution? b.executionId) incomplete
  let control ← orRaise (db.requestState? r.id) incomplete
  raiseIf (e.requestId ≠ r.id ∨ r.securityId ≠ security ∨ e.state ≠ .ended .completed ∨
    control.currentExecutionId ≠ e.id ∨ control.terminalOutcome ≠ some .completed) incomplete
  match b.kind with
  | .initialSeed =>
    raiseIf (r.trigger ≠ .sourceBootstrap ∨ ¬ seedApproved)
      ⟨.checkViolation, "initial baseline differs from reviewed seed lineage"⟩
  | .priorMonitorResult =>
    let mismatch : SqlError :=
      ⟨.checkViolation, "prior baseline differs from complete result or comparison scope; review rebase"⟩
    let result ← orRaise (monitorResult db e.id) mismatch
    let plan ← orRaise r.filingMonitorPlan mismatch
    raiseIf (r.trigger ≠ .secFilingMonitor ∨ ¬ result.baselineEligible ∨ ¬ result.outcome.eligible ∨
      some result.manifestId ≠ b.manifestId ∨ result.manifestSha256 ≠ b.manifestSha256 ∨ plan.cutoff ≠ b.cutoff ∨
      workflowMonitorScope plan ≠ workflowMonitorScope p) mismatch

/-- A plan with its forms and resources in order. -/
def MonitorPlan.canonical (p : MonitorPlan) : MonitorPlan :=
  { p with forms := p.forms.insertionSort (· ≤ ·), resources := p.resources.insertionSort (· ≤ ·) }

/-- The arguments of a filing monitor enqueue, with what the other tables answer. -/
structure MonitorArguments where
  workspace : Uuid
  security : Uuid
  key : String
  plan : MonitorPlan
  maxAttempts : ℤ
  identified : Bool
  seedApproved : Bool
deriving DecidableEq, Repr

/-- The request of a filing monitor enqueue. -/
def MonitorArguments.request (a : MonitorArguments) (db : Database) (plan : MonitorPlan) (hash : String) (id : Uuid) :
    AnalysisRequest where
  id
  workspaceId := a.workspace
  securityId := a.security
  quoteIdentifierId := none
  trigger := .secFilingMonitor
  membershipId := none
  parentRequestId := none
  requestSequence := db.nextSequence
  idempotencyKey := a.key
  options := { maxAttempts := a.maxAttempts }
  parametersHash := hash
  filingMonitorPlan := some plan

/-- Enqueue a filing monitor request, or find the one that its key names. -/
def workflowEnqueueMonitor (digest : RequestParameters → String) (db : Database) (now : Instant)
    (a : MonitorArguments) (request execution : Uuid) : Except SqlError (Database × Option RequestResult) := do
  raiseIf (¬ KeyLength a.key ∨ ¬ workflowValidMonitorPlan a.plan ∨ ¬ (1 ≤ a.maxAttempts ∧ a.maxAttempts ≤ 3))
    ⟨.invalidParameterValue, "invalid pinned monitor request"⟩
  let plan := a.plan.canonical
  raiseIf (db.workspaces.lookup Workspace.id a.workspace = none) ⟨.foreignKeyViolation, "unknown workspace"⟩
  let hash := digest (.monitor a.workspace a.security plan a.maxAttempts)
  match db.key? a.workspace a.key with
  | some existing => do
    raiseIf (existing.parametersHash ≠ hash)
      ⟨.invalidParameterValue, "idempotency key reused with different parameters"⟩
    return (db, workflowRequestResult db existing.requestId)
  | none => do
    raiseIf (¬ workflowValidMonitorPlan plan ∨ now < plan.cutoff ∨ ¬ a.identified)
      ⟨.checkViolation, "invalid monitor identity, cutoff or acquisition-only intent"⟩
    workflowMonitorBaseline db plan a.security a.seedApproved
    let db ← createRequest db now (a.request db plan hash request) execution
    return (db, workflowRequestResult db request)

/-- The execution that a lease holds, with a stage attempt of it that is running. -/
def ingestionLockedStage (db : Database) (now : Instant) (lease : Lease) (stage : Uuid) :
    Except SqlError (Execution × StageAttempt) := do
  let execution ← workflowLockedLease db now lease
  let ended : SqlError :=
    ⟨.objectNotInPrerequisiteState, "lease lost: source stage ended or belongs to another execution"⟩
  let s ← orRaise (db.stage? stage) ended
  raiseIf (s.executionId ≠ execution.id ∨ ¬ s.Running) ended
  return (execution, s)

/-- Complete the result stage of a filing monitor; `evidenced` tells whether the plan, the captures
and the attempts bear the result out. -/
def workflowCompleteMonitor (db : Database) (now : Instant) (lease : Lease) (stage : Uuid) (result : MonitorResult)
    (evidenced seedApproved : Bool) : Except SqlError (Database × Bool) := do
  let (execution, s) ← ingestionLockedStage db now lease stage
  let invalid : SqlError := ⟨.checkViolation, "invalid typed monitor result"⟩
  let request ← orRaise (db.request? execution.requestId) invalid
  let plan ← orRaise request.filingMonitorPlan invalid
  raiseIf (result.baselineEligible ≠ result.outcome.eligible ∨ ¬ evidenced) invalid
  workflowMonitorBaseline db plan request.securityId seedApproved
  raiseIf (s.stageKey ≠ "sec_monitor_result")
    ⟨.objectNotInPrerequisiteState, "monitor result stage is not active"⟩
  let db ← db.closeStages (fun s => s.id = stage ∧ s.executionId = execution.id ∧ s.Running) fun s =>
    { s with closure := some ⟨.completed, now, none, Or.inl rfl⟩, resultReference := some result }
  let db ← db.updateExecution execution.id fun e => { e with currentStage := none }
  let db ← db.workflowEvent execution.id (.stageFinished stage .completed none)
  return (db, true)

end EquityEval.Workflow
