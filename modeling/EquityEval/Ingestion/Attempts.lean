import EquityEval.Ingestion.Tables

/-!
# Operations on fetch attempts

An attempt is prepared, dispatched, receives headers and ends, each time by the holder of the lease of
its stage; an attempt whose stage was lost is recovered. Every operation inserts an attempt or rewrites
one that keeps its identity. The triggers of the table are a parameter, and so are the answers of the
tables of leases and stages.
-/

namespace EquityEval.Ingestion

open Relational Workflow

/-- The table of attempts. -/
abbrev Attempts : Type := Table FetchAttempt AttemptsValid

/-- The triggers of the table: what they do with a row that is inserted, or that takes the place of another one. -/
abbrev RowTrigger : Type := Option FetchAttempt → FetchAttempt → Except SqlError Unit

/-- `AttemptRequest`. -/
structure AttemptRequest where
  logicalFetchId : Uuid
  sequence : ℕ
  sourceId : Uuid
  policyRevisionId : Uuid
  sourceObjectKey : String
  requestUrl : String
  requestParamsHash : String
  validatorCaptureId : Option Uuid
  ifNoneMatch : Option String
  ifModifiedSince : Option String
deriving DecidableEq, Repr

/-- What the tables of leases and stages say of a call: whether the lease holds the running stage, and the fence of its execution. -/
structure StageAnswer where
  held : Bool
  fencingToken : ℕ
  owner : String
deriving DecidableEq, Repr

/-- The error of a lost stage. -/
def stageLost : SqlError := ⟨.objectNotInPrerequisiteState, "lease lost: source stage ended or belongs to another execution"⟩

/-- `ingestion_locked_stage`. -/
def ingestionLockedStage (answer : StageAnswer) : Except SqlError Unit := raiseIf (answer.held = false) stageLost

/-- Insert an attempt. -/
def insertAttempt (trigger : RowTrigger) (attempts : Attempts) (row : FetchAttempt) : Except SqlError Attempts := do
  trigger none row
  attempts.insert row (violates "source_fetch_attempts")

/-- Put a row in the place of an attempt. -/
def updateAttempt (trigger : RowTrigger) (attempts : Attempts) (old new : FetchAttempt) : Except SqlError Attempts := do
  trigger (some old) new
  attempts.update (fun a => a.id = old.id) (fun _ => new) (violates "source_fetch_attempts")

/-- The attempt is the one that a request prepared under a fence. -/
def FetchAttempt.Repeats (a : FetchAttempt) (lease : Lease) (stage : Uuid) (answer : StageAnswer) (r : AttemptRequest) : Prop :=
  (a.sourceId = r.sourceId ∧ a.policyRevisionId = r.policyRevisionId ∧ a.sourceObjectKey = r.sourceObjectKey ∧
      a.requestUrl = r.requestUrl ∧ a.requestParamsHash = r.requestParamsHash) ∧
    (a.validatorCaptureId = r.validatorCaptureId ∧ a.ifNoneMatch = r.ifNoneMatch ∧ a.ifModifiedSince = r.ifModifiedSince) ∧
    (a.stageAttemptId = stage ∧ a.leaseEpoch = lease.epoch ∧ a.leaseFencingToken = answer.fencingToken ∧ a.leaseOwner = answer.owner)

instance (a : FetchAttempt) (lease : Lease) (stage : Uuid) (answer : StageAnswer) (r : AttemptRequest) :
    Decidable (a.Repeats lease stage answer r) := inferInstanceAs (Decidable (_ ∧ _))

/-- The attempt of a number of a logical fetch. -/
def existingAttempt (attempts : Attempts) (logicalFetchId : Uuid) (sequence : ℕ) : Option FetchAttempt :=
  attempts.rows.find? fun a => a.logicalFetchId = logicalFetchId ∧ a.sequenceNo = sequence

/-- The attempt that a request prepares. -/
def preparedAttempt (now : Instant) (transaction : ℕ) (id : Uuid) (lease : Lease) (stage : Uuid) (answer : StageAnswer)
    (r : AttemptRequest) : FetchAttempt where
  id := id
  logicalFetchId := r.logicalFetchId
  sequenceNo := r.sequence
  sourceId := r.sourceId
  policyRevisionId := r.policyRevisionId
  sourceObjectKey := r.sourceObjectKey
  requestUrl := r.requestUrl
  requestParamsHash := r.requestParamsHash
  stageAttemptId := stage
  leaseEpoch := lease.epoch
  leaseFencingToken := answer.fencingToken
  leaseOwner := answer.owner
  creationTransactionId := transaction
  preparedAt := now
  validatorCaptureId := r.validatorCaptureId
  ifNoneMatch := r.ifNoneMatch
  ifModifiedSince := r.ifModifiedSince

/-- `ingestion_prepare`. -/
def ingestionPrepare (trigger : RowTrigger) (attempts : Attempts) (now : Instant) (transaction : ℕ) (id : Uuid) (lease : Lease)
    (stage : Uuid) (answer : StageAnswer) (r : AttemptRequest) : Except SqlError (Attempts × Uuid) := do
  ingestionLockedStage answer
  match existingAttempt attempts r.logicalFetchId r.sequence with
  | some existing => do
    raiseIf (¬ existing.Repeats lease stage answer r)
      ⟨.invalidParameterValue, "fetch sequence reused with different request or fence"⟩
    raiseIf (existing.state ≠ .prepared) ⟨.objectNotInPrerequisiteState, "source attempt already progressed"⟩
    return (attempts, existing.id)
  | none => do
    let before := attempts.rows.filter fun a => a.logicalFetchId = r.logicalFetchId
    raiseIf (r.sequence ≠ before.length + 1 ∨ 3 < r.sequence)
      ⟨.invalidParameterValue, "fetch sequence must be contiguous within the three-dispatch budget"⟩
    raiseIf (∃ a ∈ before, a.sourceId ≠ r.sourceId ∨ a.policyRevisionId ≠ r.policyRevisionId ∨
      a.sourceObjectKey ≠ r.sourceObjectKey ∨ a.requestParamsHash ≠ r.requestParamsHash ∨ a.stageAttemptId ≠ stage ∨ a.Unfinished)
      ⟨.checkViolation, "logical fetch changed identity or previous hop is unfinished"⟩
    let attempts ← insertAttempt trigger attempts (preparedAttempt now transaction id lease stage answer r)
    return (attempts, id)

/-- `ingestion_locked_attempt`. -/
def ingestionLockedAttempt (attempts : Attempts) (lease : Lease) (answer : StageAnswer) (id : Uuid) : Except SqlError FetchAttempt := do
  let attempt ← orRaise (attempts.lookup FetchAttempt.id id) ⟨.foreignKeyViolation, "unknown source attempt"⟩
  ingestionLockedStage answer
  raiseIf (attempt.leaseEpoch ≠ lease.epoch ∨ attempt.leaseFencingToken ≠ lease.fencingToken ∨ attempt.leaseOwner ≠ lease.workerId)
    ⟨.objectNotInPrerequisiteState, "lease lost: attempt belongs to another fence"⟩
  raiseIf (¬ attempt.Unfinished) ⟨.objectNotInPrerequisiteState, "source attempt is already terminal"⟩
  return attempt

/-- `ingestion_dispatch`. -/
def ingestionDispatch (trigger : RowTrigger) (attempts : Attempts) (transaction : ℕ) (lease : Lease) (answer : StageAnswer) (id : Uuid)
    (requestedAt : Instant) : Except SqlError Attempts := do
  let attempt ← ingestionLockedAttempt attempts lease answer id
  raiseIf (attempt.state ≠ .prepared ∨ attempt.creationTransactionId = transaction)
    ⟨.objectNotInPrerequisiteState, "dispatch requires a previously committed prepared attempt"⟩
  updateAttempt trigger attempts attempt { attempt with state := .inProgress, requestedAt := some requestedAt }

/-- `ingestion_headers`. -/
def ingestionHeaders (trigger : RowTrigger) (attempts : Attempts) (lease : Lease) (answer : StageAnswer) (id : Uuid)
    (receivedAt : Instant) (status : ℤ) (headers : ResponseHeaders) : Except SqlError Attempts := do
  let attempt ← ingestionLockedAttempt attempts lease answer id
  raiseIf (attempt.state ≠ .inProgress ∨ attempt.headersReceivedAt ≠ none)
    ⟨.objectNotInPrerequisiteState, "headers require one dispatched attempt with no previous headers"⟩
  raiseIf (FetchAttempt.headerEvidenceValid headers = false) ⟨.checkViolation, "invalid or unrestricted HTTP evidence"⟩
  updateAttempt trigger attempts attempt
    { attempt with headersReceivedAt := some receivedAt, httpStatus := some status, responseHeaders := headers }

/-- How an attempt ends. -/
structure Ending where
  outcome : AttemptState
  finishedAt : Instant
  completedCaptureId : Option Uuid := none
  reusedCaptureId : Option Uuid := none
  failureCode : Option String := none
  failureDetail : Option String := none
  quarantine : Option Quarantine := none
deriving DecidableEq, Repr

/-- The attempt with its ending. -/
def FetchAttempt.ended (a : FetchAttempt) (e : Ending) : FetchAttempt :=
  { a with
    state := e.outcome, finishedAt := some e.finishedAt, completedCaptureId := e.completedCaptureId
    reusedCaptureId := e.reusedCaptureId, failureCode := e.failureCode, failureDetail := e.failureDetail
    quarantine := e.quarantine }

/-- The outcomes that a worker reports. -/
def workerOutcomes : List AttemptState :=
  [.complete, .notModified, .redirected, .httpError, .transportError, .bodyLimit, .redirectRefused, .archiveError, .cancelled]

/-- `ingestion_finalize`; whether the metadata of a capture is accepted and stored is an argument. -/
def ingestionFinalize (trigger : RowTrigger) (attempts : Attempts) (lease : Lease) (answer : StageAnswer) (captured : Bool) (id : Uuid)
    (e : Ending) : Except SqlError Attempts := do
  let attempt ← ingestionLockedAttempt attempts lease answer id
  raiseIf (e.outcome ∉ workerOutcomes)
    ⟨.invalidParameterValue, "invalid worker terminal outcome; unknown interruption is recovery-only"⟩
  raiseIf (attempt.state = .prepared ∧ e.outcome ∉ [.transportError, .archiveError, .cancelled])
    ⟨.objectNotInPrerequisiteState, "HTTP outcome requires committed dispatch evidence"⟩
  raiseIf (e.completedCaptureId ≠ none ∧ (e.outcome ∉ [.complete, .httpError, .redirected, .redirectRefused] ∨
    attempt.headersReceivedAt = none ∨ e.quarantine ≠ none ∨ captured = false))
    ⟨.checkViolation, "complete capture is incompatible with this attempt outcome"⟩
  updateAttempt trigger attempts attempt (attempt.ended e)

/-- How an attempt ends whose stage was lost. -/
def FetchAttempt.interruption (a : FetchAttempt) (now : Instant) : Ending where
  outcome := .interruptedUnknown
  finishedAt := max now a.lastRecorded
  completedCaptureId := a.completedCaptureId
  reusedCaptureId := a.reusedCaptureId
  failureCode := some "lost_stage_lease"
  failureDetail := some "Stage ownership ended before a verified terminal result; remote outcome is unknown"
  quarantine := a.quarantine

/-- `ingestion_recover`; whether the lease of the attempt still holds its stage is an argument. -/
def ingestionRecover (trigger : RowTrigger) (attempts : Attempts) (now : Instant) (owned : Bool) (id : Uuid) :
    Except SqlError (Attempts × Bool) := do
  let attempt ← orRaise (attempts.lookup FetchAttempt.id id) ⟨.foreignKeyViolation, "unknown source attempt"⟩
  if ¬ attempt.Unfinished then return (attempts, false)
  else
    raiseIf (owned = true) ⟨.objectNotInPrerequisiteState, "cannot recover an attempt still owned by an active stage lease"⟩
    let attempts ← updateAttempt trigger attempts attempt (attempt.ended (attempt.interruption now))
    return (attempts, true)

/-! ### What an operation does -/

/-- One attempt is rewritten and keeps its identity. -/
def Rewrites (attempts attempts' : Attempts) (old new : FetchAttempt) : Prop :=
  old ∈ attempts.rows ∧ new.identity = old.identity ∧
    attempts'.rows = attempts.rows.map fun a => if a.id = old.id then new else a

section Effects

variable {trigger : RowTrigger} {attempts attempts' : Attempts} {lease : Lease} {answer : StageAnswer} {id : Uuid}

/-- A row that takes the place of an attempt passes the triggers. -/
theorem rewrites_of_update {old new : FetchAttempt} (hold : old ∈ attempts.rows) (hidentity : new.identity = old.identity)
    (h : updateAttempt trigger attempts old new = .ok attempts') :
    Rewrites attempts attempts' old new ∧ trigger (some old) new = .ok () := by
  obtain ⟨_, htrigger, hupdate⟩ := bind_eq_ok.mp h
  exact ⟨⟨hold, hidentity, Table.update_eq_ok hupdate⟩, htrigger⟩

/-- A locked attempt is there and has not ended. -/
theorem ingestionLockedAttempt_eq_ok {a : FetchAttempt} (h : ingestionLockedAttempt attempts lease answer id = .ok a) :
    a ∈ attempts.rows ∧ a.id = id ∧ a.Unfinished := by
  simp only [ingestionLockedAttempt, bind_eq_ok, orRaise_eq_ok, raiseIf_eq_ok, not_not, pure_eq_ok] at h
  obtain ⟨a, hlookup, -, -, -, -, -, hunfinished, rfl⟩ := h
  obtain ⟨hmem, hid⟩ := Table.lookup_eq_some hlookup
  exact ⟨hmem, hid, hunfinished⟩

/-- A dispatch rewrites a prepared attempt. -/
theorem ingestionDispatch_eq_ok {transaction : ℕ} {requestedAt : Instant}
    (h : ingestionDispatch trigger attempts transaction lease answer id requestedAt = .ok attempts') :
    ∃ a, a.id = id ∧ a.state = .prepared ∧
      Rewrites attempts attempts' a { a with state := .inProgress, requestedAt := some requestedAt } ∧
      trigger (some a) { a with state := .inProgress, requestedAt := some requestedAt } = .ok () := by
  simp only [ingestionDispatch, bind_eq_ok, raiseIf_eq_ok] at h
  obtain ⟨a, hlocked, -, hstate, hupdate⟩ := h
  obtain ⟨hmem, hid, -⟩ := ingestionLockedAttempt_eq_ok hlocked
  rw [not_or, not_not] at hstate
  exact ⟨a, hid, hstate.1, rewrites_of_update hmem rfl hupdate⟩

/-- Headers rewrite an attempt in progress. -/
theorem ingestionHeaders_eq_ok {receivedAt : Instant} {status : ℤ} {headers : ResponseHeaders}
    (h : ingestionHeaders trigger attempts lease answer id receivedAt status headers = .ok attempts') :
    ∃ a new, new.requestedAt = a.requestedAt ∧ new.state = .inProgress ∧ Rewrites attempts attempts' a new ∧
      trigger (some a) new = .ok () := by
  simp only [ingestionHeaders, bind_eq_ok, raiseIf_eq_ok] at h
  obtain ⟨a, hlocked, -, hstate, -, -, hupdate⟩ := h
  obtain ⟨hmem, -, -⟩ := ingestionLockedAttempt_eq_ok hlocked
  rw [not_or, not_not] at hstate
  refine ⟨a, { a with headersReceivedAt := some receivedAt, httpStatus := some status, responseHeaders := headers },
    rfl, hstate.1, rewrites_of_update hmem rfl hupdate⟩

/-- An ending rewrites an attempt that has not ended. -/
theorem ingestionFinalize_eq_ok {captured : Bool} {e : Ending}
    (h : ingestionFinalize trigger attempts lease answer captured id e = .ok attempts') :
    ∃ a, e.outcome ∈ workerOutcomes ∧ Rewrites attempts attempts' a (a.ended e) ∧ trigger (some a) (a.ended e) = .ok () := by
  simp only [ingestionFinalize, bind_eq_ok, raiseIf_eq_ok, not_not] at h
  obtain ⟨a, hlocked, -, houtcome, -, -, -, -, hupdate⟩ := h
  obtain ⟨hmem, -, -⟩ := ingestionLockedAttempt_eq_ok hlocked
  exact ⟨a, houtcome, rewrites_of_update hmem rfl hupdate⟩

/-- A recovery rewrites an attempt or leaves all as they are. -/
theorem ingestionRecover_eq_ok {now : Instant} {owned recovered : Bool}
    (h : ingestionRecover trigger attempts now owned id = .ok (attempts', recovered)) :
    attempts' = attempts ∨ ∃ a, Rewrites attempts attempts' a (a.ended (a.interruption now)) ∧
      trigger (some a) (a.ended (a.interruption now)) = .ok () := by
  simp only [ingestionRecover, bind_eq_ok, orRaise_eq_ok] at h
  obtain ⟨a, hlookup, h⟩ := h
  split at h
  · cases h
    exact .inl rfl
  · simp only [bind_eq_ok, raiseIf_eq_ok, pure_eq_ok, Prod.mk.injEq] at h
    obtain ⟨-, -, rows, hupdate, rfl, -⟩ := h
    exact .inr ⟨a, rewrites_of_update (Table.lookup_eq_some hlookup).1 rfl hupdate⟩

/-- A preparation repeats an attempt of the same number, or inserts one that is new. -/
theorem ingestionPrepare_eq_ok {now : Instant} {transaction : ℕ} {stage prepared : Uuid} {r : AttemptRequest}
    (h : ingestionPrepare trigger attempts now transaction id lease stage answer r = .ok (attempts', prepared)) :
    ((existingAttempt attempts r.logicalFetchId r.sequence).isSome = true ∧ attempts' = attempts) ∨
      (existingAttempt attempts r.logicalFetchId r.sequence = none ∧
        attempts'.rows = attempts.rows ++ [preparedAttempt now transaction id lease stage answer r] ∧
        trigger none (preparedAttempt now transaction id lease stage answer r) = .ok ()) := by
  simp only [ingestionPrepare, bind_eq_ok] at h
  obtain ⟨-, -, h⟩ := h
  split at h
  next existing hexisting =>
    simp only [bind_eq_ok, pure_eq_ok, Prod.mk.injEq] at h
    obtain ⟨-, -, -, -, rfl, -⟩ := h
    exact .inl ⟨by rw [hexisting]; rfl, rfl⟩
  next hexisting =>
    simp only [bind_eq_ok, pure_eq_ok, Prod.mk.injEq] at h
    obtain ⟨-, -, -, -, rows, hinsert, rfl, -⟩ := h
    obtain ⟨_, htrigger, hinsert⟩ := bind_eq_ok.mp hinsert
    exact .inr ⟨hexisting, Table.insert_eq_ok hinsert, htrigger⟩

end Effects

end EquityEval.Ingestion
