import EquityEval.Discovery.Contract
import EquityEval.Workflow.Acceptance

/-!
# The last step of a poll

A poll submits its result and then ends its execution. The database accepts the result of every poll.
It accepts the end exactly when no source raised within a stage, since nothing finishes that stage.
-/

namespace EquityEval.Discovery

open Relational Workflow

variable {a : Acquisition} {plan : MonitorPlan} {db db' : Database} {now now' : Instant} {lease : Lease}
  {e : Execution} {r : AnalysisRequest} {s : StageAttempt} {seedApproved : Bool}

/-- What the database holds when a poll submits its result: the request with its plan and baseline, the
running result stage, and the stages that the acquisition left. -/
structure AtLastStep (a : Acquisition) (plan : MonitorPlan) (db : Database) (e : Execution) (r : AnalysisRequest)
    (s : StageAttempt) (seedApproved : Bool) : Prop where
  request : db.request? e.requestId = some r
  monitor : r.trigger = .secFilingMonitor
  planned : r.filingMonitorPlan = some plan
  baseline : workflowMonitorBaseline db plan r.securityId seedApproved = .ok ()
  stage : s ∈ db.stages.rows
  own : s.executionId = e.id ∧ s.Running ∧ s.stageKey = "sec_monitor_result"
  only : ∀ t ∈ db.stages.rows, t.executionId = e.id → t.stageKey = "sec_monitor_result" → t.id = s.id
  left : ((db.stagesOf e.id).filter fun t => t.id ≠ s.id).map (fun t => t.closure.map (·.outcome)) =
    (a.progress plan).stages

/-- The rows after the result was recorded. -/
structure Recorded (db db' : Database) (now : Instant) (e : Execution) (s : StageAttempt) (result : MonitorResult) :
    Prop where
  requests : db'.requests = db.requests
  requestStates : db'.requestStates = db.requestStates
  executions : db'.executions.rows =
    db.executions.rows.map fun x => if x.id = e.id then { x with currentStage := none } else x
  stages : db'.stages.rows = db.stages.rows.map (completedResult s.id e.id now result)

/-- A stage of the acquisition is not the result stage. -/
theorem AtLastStep.mem_left (h : AtLastStep a plan db e r s seedApproved) {outcome : Option StageOutcome} :
    outcome ∈ (a.progress plan).stages ↔
      ∃ t ∈ db.stagesOf e.id, t.id ≠ s.id ∧ t.closure.map (·.outcome) = outcome := by
  rw [← h.left]
  simp [and_assoc]

/-- The stages of the execution after the result was recorded are those that the acquisition left, and
the completed result stage. -/
theorem Recorded.mem_stagesOf {result : MonitorResult} (h : Recorded db db' now e s result)
    (hlast : AtLastStep a plan db e r s seedApproved) {t : StageAttempt} :
    t ∈ db'.stagesOf e.id ↔
      (t ∈ db.stagesOf e.id ∧ t.id ≠ s.id) ∨
        t = { s with closure := some ⟨.completed, now, none, Or.inl rfl⟩, resultReference := some result } := by
  unfold Database.stagesOf
  simp only [Table.mem_select, h.stages, List.mem_map]
  constructor
  · rintro ⟨⟨t', ht', rfl⟩, hexecution⟩
    unfold completedResult at hexecution ⊢
    split at hexecution
    · next hcondition =>
      have hsame : t' = s := List.inj_on_of_nodup_map db.stages.valid.1 ht' hlast.stage hcondition.1
      rw [if_pos hcondition, hsame]
      exact Or.inr rfl
    · next hcondition =>
      rw [if_neg hcondition]
      refine Or.inl ⟨⟨ht', hexecution⟩, ?_⟩
      intro hid
      have hsame : t' = s := List.inj_on_of_nodup_map db.stages.valid.1 ht' hlast.stage hid
      exact hcondition ⟨hid, hexecution, hsame ▸ hlast.own.2.1⟩
  · rintro (⟨⟨ht, hexecution⟩, hid⟩ | rfl)
    · refine ⟨⟨t, ht, ?_⟩, hexecution⟩
      unfold completedResult
      rw [if_neg fun hcondition => hid hcondition.1]
    · refine ⟨⟨s, hlast.stage, ?_⟩, hlast.own.1⟩
      unfold completedResult
      rw [if_pos ⟨rfl, hlast.own.1, hlast.own.2.1⟩]

/-- The lease still holds the execution after the result was recorded. -/
theorem Recorded.leased {result : MonitorResult} (h : Recorded db db' now e s result)
    (hlease : workflowLockedLease db now' lease = .ok e) :
    workflowLockedLease db' now' lease = .ok { e with currentStage := none } ∧
      db'.execution? e.id = some { e with currentStage := none } := by
  obtain ⟨c, expires, hcontrol, hopen, hcurrent, hepoch, he, hstate, htoken, hlive, hcancelled⟩ :=
    workflowLockedLease_eq_ok.mp hlease
  have hid : c.currentExecutionId = e.id := (Table.lookup_eq_some he).2.symm
  have hfound : db'.execution? c.currentExecutionId = some { e with currentStage := none } := by
    unfold Database.execution? at he ⊢
    rw [Table.lookup_update h.executions (fun _ => rfl), he]
    simp
  refine ⟨workflowLockedLease_eq_ok.mpr ?_, hid ▸ hfound⟩
  refine ⟨c, expires, ?_, hopen, hcurrent, hepoch, hfound, hstate, htoken, hlive, hcancelled⟩
  unfold Database.requestState? at hcontrol ⊢
  rw [h.requestStates]
  exact hcontrol

/-- The guard of the monitors passes for the outcome that follows from the recorded result. -/
theorem Recorded.guard {result : PollResult} (h : Recorded db db' now e s result.typed)
    (hlast : AtLastStep a plan db e r s seedApproved)
    (hincomplete : result.baselineEligible = false → result.outcome ≠ .error → result.outcome = .incomplete) :
    monitorExecutionGuard db' e.id (finishOutcome result).1 (finishOutcome result).2 = .ok () := by
  unfold monitorExecutionGuard
  split
  · next hsuccess =>
    obtain ⟨-, hsuccess⟩ := hsuccess
    obtain ⟨t, ht, hreference⟩ : ∃ t, ((db'.stagesOf e.id).find? fun t =>
        decide (t.stageKey = "sec_monitor_result" ∧ t.Completed)) = some t ∧ t.resultReference = some result.typed := by
      cases hfind : (db'.stagesOf e.id).find? fun t => decide (t.stageKey = "sec_monitor_result" ∧ t.Completed) with
      | none =>
        have hmem := (h.mem_stagesOf hlast).mpr (Or.inr rfl)
        exact absurd (List.find?_eq_none.mp hfind _ hmem) (by simp [hlast.own.2.2])
      | some t =>
        refine ⟨t, rfl, ?_⟩
        rcases (h.mem_stagesOf hlast).mp (List.mem_of_find?_eq_some hfind) with ⟨hmem, hid⟩ | rfl
        · have hkey : t.stageKey = "sec_monitor_result" ∧ t.Completed := by simpa using List.find?_some hfind
          obtain ⟨hrow, hexecution⟩ := (Table.mem_select _).mp hmem
          exact absurd (hlast.only t hrow hexecution hkey.1) hid
        · rfl
    have herror : result.outcome ≠ .error := by
      intro herror
      simp [finishOutcome, herror] at hsuccess
    refine bind_eq_ok.mpr ⟨(), raiseIf_eq_ok.mpr (by simp [finishOutcome, herror]), ?_⟩
    refine bind_eq_ok.mpr ⟨t, orRaise_eq_ok.mpr ht, bind_eq_ok.mpr ⟨result.typed, orRaise_eq_ok.mpr hreference, ?_⟩⟩
    rw [raiseIf_eq_ok]
    unfold finishOutcome PollResult.typed
    rw [if_neg herror]
    cases heligible : result.baselineEligible with
    | true => simp
    | false => simp [hincomplete heligible herror]
  · rfl

/-- The execution of a poll whose result was recorded can be ended exactly when no source raised within
a stage. -/
theorem Recorded.finish_iff (hroot : submissionsKey plan.cik ∈ plan.resources)
    (h : Recorded db db' now e s (runFilingMonitor a plan).typed) (hlast : AtLastStep a plan db e r s seedApproved)
    (hlease : workflowLockedLease db now' lease = .ok e) :
    (∃ db'', workflowFinish db' now' lease (some (finishOutcome (runFilingMonitor a plan)).1)
      (finishOutcome (runFilingMonitor a plan)).2 = .ok (db'', true)) ↔ raisesInStage a plan = false := by
  obtain ⟨hsettled, hstages⟩ := progress_spec a hroot
  have hrunning : (∃ t ∈ db'.stagesOf e.id, t.Running) ↔ raisesInStage a plan = true := by
    rw [← hstages, hlast.mem_left]
    constructor
    · rintro ⟨t, ht, hopen⟩
      rcases (h.mem_stagesOf hlast).mp ht with ⟨hmem, hid⟩ | rfl
      · exact ⟨t, hmem, hid, by rw [hopen]; rfl⟩
      · cases hopen
    · rintro ⟨t, ht, hid, hopen⟩
      exact ⟨t, (h.mem_stagesOf hlast).mpr (Or.inl ⟨ht, hid⟩), Option.map_eq_none_iff.mp hopen⟩
  rw [workflowFinish_accepted (h.leased hlease).1]
  constructor
  · rintro ⟨-, hquiet, -⟩
    rwa [hrunning, Bool.not_eq_true] at hquiet
  · intro hnone
    have hquiet : ¬ ∃ t ∈ db'.stagesOf e.id, t.Running := by
      rw [hrunning, hnone]
      simp
    refine ⟨?_, hquiet, ?_, ?_, ?_⟩
    · unfold finishOutcome
      split
      · simp
      · split <;> simp
    · rintro ⟨hcompleted, t, ht, hincomplete⟩
      have heligible : (runFilingMonitor a plan).baselineEligible = true := by
        unfold finishOutcome at hcompleted
        split at hcompleted
        · cases hcompleted
        · by_contra hnot
          rw [if_neg hnot] at hcompleted
          cases hcompleted
      rcases (h.mem_stagesOf hlast).mp ht with ⟨hmem, hid⟩ | rfl
      · have hleft := hlast.mem_left.mpr ⟨t, hmem, hid, rfl⟩
        rcases hsettled.held.stages (hsettled.succeeded heligible) _ hleft with hopen | hdone
        · exact hquiet ⟨t, ht, Option.map_eq_none_iff.mp hopen⟩
        · exact hincomplete hdone
      · exact hincomplete rfl
    · rintro ⟨hfailed, hblank⟩
      unfold finishOutcome at hfailed hblank
      split at hfailed
      · next herror =>
        rw [if_pos herror] at hblank
        exact absurd hblank (by decide +kernel)
      · split at hfailed <;> simp at hfailed
    · exact h.guard hlast hsettled.incomplete

/-- Whatever the acquisition answers, the result of a poll passes the checks of the database and is
recorded; its execution is then ended as the poll ends it exactly when no source raised within a
stage. -/
theorem poll_accepted_iff (hvalid : workflowValidMonitorPlan plan = true)
    (hlast : AtLastStep a plan db e r s seedApproved) (hlease : workflowLockedLease db now lease = .ok e)
    (hlater : workflowLockedLease db now' lease = .ok e) :
    let result := runFilingMonitor a plan
    let checks := completeMonitorChecks a.sourceObjectKey plan a.baselineCaptureIds
      (lastFinished (a.earlierAttempts ++ (a.progress plan).finished)) result
    checks = .ok () ∧ ∃ db', workflowCompleteMonitor db now lease s.id result.typed checks.toBool seedApproved =
        .ok (db', true) ∧
      ((∃ db'', workflowFinish db' now' lease (some (finishOutcome result).1) (finishOutcome result).2 = .ok (db'', true)) ↔
        raisesInStage a plan = false) := by
  have hroot : submissionsKey plan.cik ∈ plan.resources := by
    unfold workflowValidMonitorPlan at hvalid
    simp only [Bool.and_eq_true] at hvalid
    simpa using hvalid.1.1.2
  have hchecks := runFilingMonitor_checks a hroot
  obtain ⟨hsettled, -⟩ := progress_spec a hroot
  have hstage : db.stage? s.id = some s := Table.lookup_of_mem db.stages.valid.1 hlast.stage
  have hnone : ∀ t ∈ db.stages.rows, t.executionId = e.id → t.stageKey = "sec_monitor_result" → ¬ t.Completed := by
    intro t ht hexecution hkey
    have hsame : t = s := List.inj_on_of_nodup_map db.stages.valid.1 ht hlast.stage (hlast.only t ht hexecution hkey)
    rw [hsame, StageAttempt.Completed, hlast.own.2.1]
    simp
  obtain ⟨db', hcomplete, hrequests, hstates, hexecutions, hstages⟩ :=
    workflowCompleteMonitor_accepted (runFilingMonitor a plan).typed hlease hstage hlast.own hlast.request
      hlast.planned hsettled.eligible hlast.baseline hnone
  refine ⟨hchecks, db', ?_, Recorded.finish_iff hroot ⟨hrequests, hstates, hexecutions, hstages⟩ hlast hlater⟩
  rw [hchecks]
  exact hcomplete

/-! ### A poll of one issuer -/

/-- The resource of the submissions of the sample. -/
def sampleResource : String := "submissions/0000320193"

/-- A digest of the sample. -/
def sampleSha256 : String := "e3b0c44298fc1c149afbf4c8996fb92427ae41e4649b934ca495991b7852b855"

/-- The plan of the sample, over a seed that was approved. -/
def seedPlan : MonitorPlan where
  version := "sec-filing-monitor-v1"
  issuerId := 1
  cik := "0000320193"
  sourceId := 2
  policyRevisionId := 3
  inventoryStart := 20000
  inventoryEnd := 20100
  cutoff := 1729123200000000
  forms := ["10-K", "10-Q"]
  resources := [sampleResource]
  baseline := ⟨.initialSeed, 10, 20, sampleSha256, 1729000000000000, "sec-filing-monitor-v1", some 4, some sampleSha256,
    some 5, none⟩

/-- The submissions of the sample advertise no older document. -/
def sampleDocument (capture : Uuid) : SubmissionDocument := ⟨"0000320193", capture, none, [], []⟩

/-- What the archive and the parser answer in the sample, with what the source answers. -/
def sampleAcquisition (fetch : (key : String) → Fetched (fun _ => sampleResource) key) : Acquisition where
  sourceObjectKey := fun _ => sampleResource
  baseline := .ok [⟨5, sampleResource⟩]
  parse := fun record => .ok (sampleDocument record.captureId)
  fetch
  earlierAttempts := []
  baselineCaptureIds := [5]
  manifestId := 7
  manifestSha256 := sampleSha256

/-- The source raises a `ValueError`: its descriptor differs from the approved policy revision. -/
def raisingAcquisition : Acquisition := sampleAcquisition fun _ => .raised .value []

/-- The source returns a capture. -/
def usableAcquisition : Acquisition := sampleAcquisition fun key =>
  if h : sampleResource = key then .usable 6 [1729123300000000] h (by simp) else .refused .value

/-- The seed's request and that of the poll. -/
def sampleRequest (id : Uuid) (trigger : Trigger) (sequence : ℕ) (key : String) (plan : Option MonitorPlan) :
    AnalysisRequest where
  id
  workspaceId := 1
  securityId := 1
  quoteIdentifierId := none
  trigger
  membershipId := none
  parentRequestId := none
  requestSequence := sequence
  idempotencyKey := key
  options := { maxAttempts := 3 }
  parametersHash := sampleSha256
  filingMonitorPlan := plan

/-- The execution of the poll. -/
def sampleExecution : Execution where
  id := 21
  requestId := 11
  attemptNo := 1
  state := .running "monitor" 1729123600000000
  currentStage := some "sec_monitor_result"
  availableAt := 1729123200000000
  fencingToken := 1
  startedAt := some 1729123210000000

/-- The result stage of the poll. -/
def sampleResultStage : StageAttempt := ⟨32, 21, "sec_monitor_result", 1, 1729123310000000, none, [], none⟩

/-- The execution that made the seed. -/
def seedExecution : Execution where
  id := 20
  requestId := 10
  attemptNo := 1
  state := .ended .completed
  availableAt := 1728900000000000
  finishedAt := some 1729000000000000

/-- The stage of the fetch, finished or left running. -/
def sampleFetchStage (finished : Bool) : StageAttempt :=
  ⟨31, 21, "sec_fetch_0123456789abcdef01234567", 1, 1729123220000000,
    if finished then some ⟨.completed, 1729123300000000, none, completed_explained⟩ else none, [], none⟩

/-- The tables when the poll submits its result. -/
def sampleDatabase (finished : Bool) : Database where
  workspaces := ⟨[⟨1⟩], by decide⟩
  watchlists := Workflow.Database.empty.watchlists
  memberships := Workflow.Database.empty.memberships
  requests := ⟨[sampleRequest 10 .sourceBootstrap 1 "seed" none,
    sampleRequest 11 .secFilingMonitor 2 "poll" (some seedPlan)], by decide +kernel⟩
  keys := ⟨[⟨1, "seed", 10, sampleSha256⟩, ⟨1, "poll", 11, sampleSha256⟩], by decide +kernel⟩
  executions := ⟨[seedExecution, sampleExecution], by decide +kernel⟩
  requestStates := ⟨[⟨10, 20, 1, some .completed⟩, ⟨11, 21, 1, none⟩], by decide +kernel⟩
  stages := ⟨[sampleFetchStage finished, sampleResultStage], by cases finished <;> decide +kernel⟩
  events := Workflow.Database.empty.events
  nextSequence := 3

/-- The lease of the poll. -/
def sampleLease : Workflow.Lease := ⟨11, 21, 1, 1, "monitor"⟩

/-- The error that was raised. -/
def raisedError {ε α : Type} : Except ε α → Option ε
  | .error e => some e
  | .ok _ => none

/-- The tables are those of a poll at its last step. -/
theorem atLastStep_sample {a : Acquisition} {finished : Bool}
    (h : (a.progress seedPlan).stages = [if finished then some .completed else none]) :
    AtLastStep a seedPlan (sampleDatabase finished) sampleExecution
      (sampleRequest 11 .secFilingMonitor 2 "poll" (some seedPlan)) sampleResultStage true := by
  refine ⟨?_, rfl, rfl, ?_, ?_, ⟨rfl, rfl, rfl⟩, ?_, ?_⟩
  · cases finished <;> decide +kernel
  · cases finished <;> decide +kernel
  · simp [sampleDatabase]
  · cases finished <;> decide +kernel
  · rw [h]
    cases finished <;> decide +kernel

/-- When the source raises within a stage the result is accepted, with all its checks, but the end of
the execution is refused. -/
theorem poll_left_running :
    let result := runFilingMonitor raisingAcquisition seedPlan
    workflowValidMonitorPlan seedPlan = true ∧
    AtLastStep raisingAcquisition seedPlan (sampleDatabase false) sampleExecution
      (sampleRequest 11 .secFilingMonitor 2 "poll" (some seedPlan)) sampleResultStage true ∧
    result.outcome = .incomplete ∧ result.comparison.flags = ["baseline_submissions_invalid"] ∧
    completeMonitorChecks raisingAcquisition.sourceObjectKey seedPlan [5] none result = .ok () ∧
    ((workflowCompleteMonitor (sampleDatabase false) 1729123320000000 sampleLease 32 result.typed true true).toOption.bind
      fun recorded => raisedError (workflowFinish recorded.1 1729123330000000 sampleLease
        (some (finishOutcome result).1) (finishOutcome result).2)) =
      some ⟨.objectNotInPrerequisiteState, "cannot finish while a stage is running"⟩ := by
  refine ⟨by decide +kernel, atLastStep_sample (by decide +kernel), ?_⟩
  decide +kernel

/-- When the source returns a capture the poll is accepted to its end. -/
theorem poll_accepted_sample :
    ∃ db', workflowCompleteMonitor (sampleDatabase true) 1729123320000000 sampleLease 32
        (runFilingMonitor usableAcquisition seedPlan).typed
        (completeMonitorChecks usableAcquisition.sourceObjectKey seedPlan [5] (some 1729123300000000)
          (runFilingMonitor usableAcquisition seedPlan)).toBool true = .ok (db', true) ∧
      ∃ db'', workflowFinish db' 1729123330000000 sampleLease
        (some (finishOutcome (runFilingMonitor usableAcquisition seedPlan)).1)
        (finishOutcome (runFilingMonitor usableAcquisition seedPlan)).2 = .ok (db'', true) := by
  have hlast : AtLastStep usableAcquisition seedPlan (sampleDatabase true) sampleExecution
      (sampleRequest 11 .secFilingMonitor 2 "poll" (some seedPlan)) sampleResultStage true :=
    atLastStep_sample (by decide +kernel)
  have hlease : workflowLockedLease (sampleDatabase true) 1729123320000000 sampleLease = .ok sampleExecution := by
    decide +kernel
  have hlater : workflowLockedLease (sampleDatabase true) 1729123330000000 sampleLease = .ok sampleExecution := by
    decide +kernel
  obtain ⟨-, db', hcomplete, hiff⟩ := poll_accepted_iff (by decide +kernel) hlast hlease hlater
  exact ⟨db', hcomplete, hiff.mpr (by decide +kernel)⟩

end EquityEval.Discovery
