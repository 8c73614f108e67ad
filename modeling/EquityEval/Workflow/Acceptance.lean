import EquityEval.Workflow.Effects

/-!
# When the last calls of an execution are accepted

No write of a call that ends an execution breaks a constraint, so the call is accepted exactly when
its checks pass.
-/

namespace EquityEval.Workflow

open Relational

variable {db : Database} {now : Instant}

/-! ### Writes that break no constraint -/

/-- An update that keeps a key keeps it unique. -/
theorem uniqueBy_update {ρ κ : Type} {key : ρ → κ} {rows : List ρ} (h : UniqueBy key rows) {condition : ρ → Prop}
    [DecidablePred condition] {f : ρ → ρ} (hkey : ∀ row, key (f row) = key row) :
    UniqueBy key (rows.map fun row => if condition row then f row else row) := by
  unfold UniqueBy
  rw [List.map_map]
  have hsame : (key ∘ fun row => if condition row then f row else row) = key := by
    funext row
    by_cases hc : condition row <;> simp [hc, hkey]
  rw [hsame]
  exact h

/-- A valid write returns. -/
theorem write_ok {ρ : Type} {constraint : List ρ → Prop} [DecidablePred constraint] {rows : List ρ}
    (h : constraint rows) (violation : SqlError) :
    ∃ t : Table ρ constraint, Table.write rows violation = .ok t ∧ t.rows = rows := by
  unfold Table.write
  rw [dif_pos h]
  exact ⟨_, rfl, rfl⟩

/-- An update of an execution that keeps its identity, and its end with its state, is accepted. -/
theorem updateExecution_ok (db : Database) (x : Uuid) {f : Execution → Execution}
    (hkeep : ∀ e, (f e).id = e.id ∧ (f e).requestId = e.requestId ∧ (f e).attemptNo = e.attemptNo)
    (hends : ∀ e ∈ db.executions.rows, (f e).finishedAt = none ∨ (f e).state.isOpen = false) :
    ∃ db', db.updateExecution x f = .ok db' := by
  have hvalid : ExecutionsValid (db.executions.rows.map fun e => if e.id = x then f e else e) := by
    obtain ⟨hid, hattempt, hrows⟩ := db.executions.valid
    refine ⟨uniqueBy_update hid fun e => (hkeep e).1, uniqueBy_update hattempt fun e => ?_, ?_⟩
    · rw [(hkeep e).2.1, (hkeep e).2.2]
    · intro e he
      obtain ⟨e', he', rfl⟩ := List.mem_map.mp he
      split
      · exact ⟨(hkeep e').2.2 ▸ (hrows e' he').1, hends e' he'⟩
      · exact hrows e' he'
  obtain ⟨executions, hwrite, -⟩ := write_ok hvalid (violates "analysis_executions")
  refine ⟨{ db with executions }, ?_⟩
  unfold Database.updateExecution Table.update
  rw [hwrite]
  rfl

/-- An update of the state of a request that keeps its identity and its epoch is accepted. -/
theorem updateRequestState_ok (db : Database) (r : Uuid) {f : RequestState → RequestState}
    (hkeep : ∀ c, (f c).requestId = c.requestId ∧ (f c).attemptEpoch = c.attemptEpoch) :
    ∃ db', db.updateRequestState r f = .ok db' := by
  have hvalid : RequestStatesValid (db.requestStates.rows.map fun c => if c.requestId = r then f c else c) := by
    obtain ⟨hid, hrows⟩ := db.requestStates.valid
    refine ⟨uniqueBy_update hid fun c => (hkeep c).1, ?_⟩
    intro c hc
    obtain ⟨c', hc', rfl⟩ := List.mem_map.mp hc
    split
    · exact (hkeep c').2 ▸ hrows c' hc'
    · exact hrows c' hc'
  obtain ⟨requestStates, hwrite, -⟩ := write_ok hvalid (violates "analysis_request_state")
  refine ⟨{ db with requestStates }, ?_⟩
  unfold Database.updateRequestState Table.update
  rw [hwrite]
  rfl

/-- An event is always accepted. -/
theorem workflowEvent_ok (db : Database) (x : Uuid) (kind : EventKind) : ∃ db', db.workflowEvent x kind = .ok db' := by
  have hvalid : EventsValid (db.events.rows ++
      [⟨x, nextNumber ((db.eventsOf x).map (·.eventSequence)), kind⟩]) := by
    obtain ⟨hunique, hrows⟩ := db.events.valid
    refine ⟨?_, ?_⟩
    · unfold UniqueBy
      rw [List.map_append]
      refine List.nodup_append.mpr ⟨hunique, List.nodup_singleton _, ?_⟩
      intro key hkey key' hkey' heq
      obtain ⟨e, he, rfl⟩ := List.mem_map.mp hkey
      rw [List.mem_singleton.mp hkey', Prod.mk.injEq] at heq
      have hmem : e.eventSequence ∈ (db.eventsOf x).map (·.eventSequence) :=
        List.mem_map_of_mem ((Table.mem_select _).mpr ⟨he, heq.1⟩)
      exact absurd heq.2 (lt_nextNumber hmem).ne
    · intro e he
      rcases List.mem_append.mp he with he | he
      · exact hrows e he
      · rw [List.mem_singleton.mp he]
        exact Nat.succ_pos _
  obtain ⟨events, hwrite, -⟩ := write_ok hvalid (violates "execution_events")
  refine ⟨{ db with events }, ?_⟩
  unfold Database.workflowEvent Table.insert
  simp only [hwrite]
  rfl

/-! ### Finishing -/

/-- Finishing is accepted exactly when no stage is running, a complete analysis has complete stages,
the outcome is explained where it must be, and the guard of the monitors passes. -/
theorem workflowFinish_accepted {lease : Lease} {e : Execution} (hlease : workflowLockedLease db now lease = .ok e)
    (outcome : Outcome) (reason : Option String) :
    (∃ db', workflowFinish db now lease (some outcome) reason = .ok (db', true)) ↔
      outcome ≠ .cancelled ∧ (¬ ∃ s ∈ db.stagesOf e.id, s.Running) ∧
        (¬ (outcome = .completed ∧ ∃ s ∈ db.stagesOf e.id, ¬ s.Completed)) ∧
        (¬ (outcome ∈ [.failed, .waitingForInput] ∧ Blank reason)) ∧
        monitorExecutionGuard db e.id outcome reason = .ok () := by
  constructor
  · rintro ⟨db', h⟩
    unfold workflowFinish at h
    obtain ⟨e', he', h⟩ := bind_eq_ok.mp h
    cases hlease.symm.trans he'
    obtain ⟨outcome', houtcome, h⟩ := bind_eq_ok.mp h
    cases orRaise_eq_ok.mp houtcome
    obtain ⟨_, hcancelled, h⟩ := bind_eq_ok.mp h
    obtain ⟨_, hrunning, h⟩ := bind_eq_ok.mp h
    obtain ⟨_, hcompleted, h⟩ := bind_eq_ok.mp h
    obtain ⟨_, hreason, h⟩ := bind_eq_ok.mp h
    obtain ⟨_, hguard, -⟩ := bind_eq_ok.mp h
    exact ⟨raiseIf_eq_ok.mp hcancelled, raiseIf_eq_ok.mp hrunning, raiseIf_eq_ok.mp hcompleted,
      raiseIf_eq_ok.mp hreason, hguard⟩
  · rintro ⟨hcancelled, hrunning, hcompleted, hreason, hguard⟩
    obtain ⟨ended, hended⟩ := updateExecution_ok db e.id
      (f := fun e => { e with state := .ended outcome, finishedAt := some now, currentStage := none, errorCode := reason })
      (fun _ => ⟨rfl, rfl, rfl⟩) (fun _ _ => Or.inr rfl)
    obtain ⟨settled, hsettled⟩ := updateRequestState_ok ended e.requestId
      (f := fun c => { c with terminalOutcome := some outcome }) fun _ => ⟨rfl, rfl⟩
    obtain ⟨noted, hnoted⟩ := workflowEvent_ok settled e.id (.finished outcome reason)
    refine ⟨noted, ?_⟩
    exact bind_eq_ok.mpr ⟨e, hlease, bind_eq_ok.mpr ⟨outcome, rfl,
      bind_eq_ok.mpr ⟨(), raiseIf_eq_ok.mpr hcancelled, bind_eq_ok.mpr ⟨(), raiseIf_eq_ok.mpr hrunning,
      bind_eq_ok.mpr ⟨(), raiseIf_eq_ok.mpr hcompleted, bind_eq_ok.mpr ⟨(), raiseIf_eq_ok.mpr hreason,
      bind_eq_ok.mpr ⟨(), hguard, bind_eq_ok.mpr ⟨ended, hended, bind_eq_ok.mpr ⟨settled, hsettled,
      bind_eq_ok.mpr ⟨noted, hnoted, rfl⟩⟩⟩⟩⟩⟩⟩⟩⟩⟩

/-! ### The result of a filing monitor -/

/-- A key is unique among the rows that meet a condition when no two of these have the same key. -/
theorem uniqueBy_filter {ρ κ : Type} {key : ρ → κ} {rows : List ρ} {p : ρ → Prop} [DecidablePred p] :
    UniqueBy key (rows.filter fun row => decide (p row)) ↔
      rows.Pairwise fun row row' => p row → p row' → key row ≠ key row' := by
  unfold UniqueBy List.Nodup
  rw [List.pairwise_map, List.pairwise_filter]
  simp only [decide_eq_true_eq]

/-- Closing a running stage attempt is accepted, unless it has the result of a monitor and another of its execution has one. -/
theorem closeStages_ok (stage : Uuid) {f : StageAttempt → StageAttempt} {e : Uuid}
    (hkeep : ∀ s, (f s).id = s.id ∧ (f s).executionId = s.executionId ∧ (f s).stageKey = s.stageKey ∧ (f s).attemptNo = s.attemptNo)
    (hclosed : ∀ s, ¬ (f s).Running)
    (hnone : ∀ s ∈ db.stages.rows, s.id = stage → s.stageKey = "sec_monitor_result" →
      ∀ t ∈ db.stages.rows, t.executionId = e → t.stageKey = "sec_monitor_result" → ¬ t.Completed) :
    ∃ db', db.closeStages (fun s => s.id = stage ∧ s.executionId = e ∧ s.Running) f = .ok db' := by
  obtain ⟨hid, hattempt, hrunning, hresult, hrows⟩ := db.stages.valid
  have hstage : ∀ s, (f s).stage = s.stage := fun s => by rw [StageAttempt.stage, (hkeep s).2.1, (hkeep s).2.2.1]; rfl
  have hvalid : StagesValid (db.stages.rows.map fun s => if s.id = stage ∧ s.executionId = e ∧ s.Running then f s else s) := by
    refine ⟨uniqueBy_update hid fun s => (hkeep s).1, uniqueBy_update hattempt fun s => ?_, ?_, ?_, ?_⟩
    · rw [hstage, (hkeep s).2.2.2]
    · rw [uniqueBy_filter, List.pairwise_map]
      rw [uniqueBy_filter] at hrunning
      refine hrunning.imp ?_
      intro s t h hs ht
      split at hs
      · exact absurd hs (hclosed s)
      split at ht
      · exact absurd ht (hclosed t)
      simp only [*, if_false]
      exact h hs ht
    · rw [uniqueBy_filter, List.pairwise_map]
      rw [uniqueBy_filter] at hresult
      unfold UniqueBy List.Nodup at hid
      rw [List.pairwise_map] at hid
      refine (hresult.and hid).imp_of_mem ?_
      rintro s t hs ht ⟨h, hne⟩ hsDone htDone
      by_cases hcs : s.id = stage ∧ s.executionId = e ∧ s.Running <;>
        by_cases hct : t.id = stage ∧ t.executionId = e ∧ t.Running
      · exact absurd (hcs.1.trans hct.1.symm) hne
      · rw [if_pos hcs, (hkeep s).2.2.1] at hsDone
        rw [if_neg hct] at htDone
        rw [if_pos hcs, if_neg hct, (hkeep s).2.1]
        intro heq
        exact hnone s hs hcs.1 hsDone.1 t ht (heq.symm.trans hcs.2.1) htDone.1 htDone.2
      · rw [if_neg hcs] at hsDone
        rw [if_pos hct, (hkeep t).2.2.1] at htDone
        rw [if_neg hcs, if_pos hct, (hkeep t).2.1]
        intro heq
        exact hnone t ht hct.1 htDone.1 s hs (heq.trans hct.2.1) hsDone.1 hsDone.2
      · rw [if_neg hcs] at hsDone
        rw [if_neg hct] at htDone
        rw [if_neg hcs, if_neg hct]
        exact h hsDone htDone
    · intro s hs
      obtain ⟨s', hs', rfl⟩ := List.mem_map.mp hs
      split
      · rw [(hkeep s').2.2.1, (hkeep s').2.2.2]
        exact hrows s' hs'
      · exact hrows s' hs'
  obtain ⟨stages, hwrite, -⟩ := write_ok hvalid (violates "analysis_stage_attempts")
  refine ⟨{ db with stages }, ?_⟩
  unfold Database.closeStages Table.update
  rw [hwrite]
  rfl

/-- The row of a completed result stage. -/
def completedResult (stage e : Uuid) (now : Instant) (result : MonitorResult) (s : StageAttempt) : StageAttempt :=
  if s.id = stage ∧ s.executionId = e ∧ s.Running then
    { s with closure := some ⟨.completed, now, none, completed_explained⟩, resultReference := some result }
  else s

/-- Completing a monitor is accepted when its result passes the checks, its baseline is there and its
result stage is the running one; only that stage and the current stage of the execution change. -/
theorem workflowCompleteMonitor_accepted (result : MonitorResult) {lease : Lease} {e : Execution} {s : StageAttempt}
    {r : AnalysisRequest} {plan : MonitorPlan} {seedApproved : Bool} {stage : Uuid}
    (hlease : workflowLockedLease db now lease = .ok e) (hstage : db.stage? stage = some s)
    (hown : s.executionId = e.id ∧ s.Running ∧ s.stageKey = "sec_monitor_result")
    (hrequest : db.request? e.requestId = some r) (hplan : r.filingMonitorPlan = some plan)
    (heligible : result.baselineEligible = result.outcome.eligible)
    (hbaseline : workflowMonitorBaseline db plan r.securityId seedApproved = .ok ())
    (hnone : ∀ s ∈ db.stages.rows, s.executionId = e.id → s.stageKey = "sec_monitor_result" → ¬ s.Completed) :
    ∃ db', workflowCompleteMonitor db now lease stage result true seedApproved = .ok (db', true) ∧
      db'.requests = db.requests ∧ db'.requestStates = db.requestStates ∧
      db'.executions.rows = (db.executions.rows.map fun x => if x.id = e.id then { x with currentStage := none } else x) ∧
      db'.stages.rows = db.stages.rows.map (completedResult stage e.id now result) := by
  obtain ⟨closed, hclosed⟩ := closeStages_ok stage (e := e.id)
    (f := fun s => { s with closure := some ⟨.completed, now, none, Or.inl rfl⟩, resultReference := some result })
    (fun _ => ⟨rfl, rfl, rfl, rfl⟩) (fun _ => nofun) fun _ _ _ _ => hnone
  have hends : ∀ x ∈ closed.executions.rows,
      ({ x with currentStage := none } : Execution).finishedAt = none ∨
        ({ x with currentStage := none } : Execution).state.isOpen = false :=
    fun x hx => (closed.executions.valid.2.2 x hx).2
  obtain ⟨updated, hupdated⟩ := updateExecution_ok closed e.id
    (f := fun x => { x with currentStage := none }) (fun _ => ⟨rfl, rfl, rfl⟩) hends
  obtain ⟨noted, hnoted⟩ := workflowEvent_ok updated e.id (.stageFinished stage .completed none)
  refine ⟨noted, ?_, ?_⟩
  · have hlocked : ingestionLockedStage db now lease stage = .ok (e, s) :=
      bind_eq_ok.mpr ⟨e, hlease, bind_eq_ok.mpr ⟨s, orRaise_eq_ok.mpr hstage,
        bind_eq_ok.mpr ⟨(), raiseIf_eq_ok.mpr (by simp [hown.1, hown.2.1]), rfl⟩⟩⟩
    exact bind_eq_ok.mpr ⟨(e, s), hlocked, bind_eq_ok.mpr ⟨r, orRaise_eq_ok.mpr hrequest,
      bind_eq_ok.mpr ⟨plan, orRaise_eq_ok.mpr hplan, bind_eq_ok.mpr ⟨(), raiseIf_eq_ok.mpr (by simp [heligible]),
      bind_eq_ok.mpr ⟨(), hbaseline, bind_eq_ok.mpr ⟨(), raiseIf_eq_ok.mpr (by simp [hown.2.2]),
      bind_eq_ok.mpr ⟨closed, hclosed, bind_eq_ok.mpr ⟨updated, hupdated, bind_eq_ok.mpr ⟨noted, hnoted, rfl⟩⟩⟩⟩⟩⟩⟩⟩⟩
  · obtain ⟨stages, hstages, rfl⟩ := closeStages_eq_ok hclosed
    obtain ⟨executions, hexecutions, rfl⟩ := updateExecution_eq_ok hupdated
    obtain ⟨events, rfl, -⟩ := workflowEvent_eq_ok hnoted
    exact ⟨rfl, rfl, hexecutions, hstages⟩

end EquityEval.Workflow
