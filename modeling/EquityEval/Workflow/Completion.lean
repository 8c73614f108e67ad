import EquityEval.Workflow.Acceptance

/-!
# The last stage of an execution

An execution that is no monitor's completes its last stage and then finishes. The lease keeps passing
when the stage is completed, the other stages stay as they were, and the execution can be finished with
gaps, or when the other stages were completed.
-/

namespace EquityEval.Workflow

open Relational

variable {db db' : Database} {now : Instant} {lease : Lease} {e : Execution} {s : StageAttempt} {outcome : Outcome}

/-- The execution of a lease that passes is the one that it names. -/
theorem Coherent.leased (hc : Coherent db) (hlease : workflowLockedLease db now lease = .ok e) :
    e.id = lease.executionId ∧ e.requestId = lease.requestId := by
  obtain ⟨r, a, expires, hheld, rfl⟩ := hc.held hlease
  exact ⟨hheld.execution, hheld.represents.mem_last.2.trans hheld.request⟩

/-- Finishing answers that it did. -/
theorem workflowFinish_answer {outcome : Option Outcome} {reason : Option String} {result : Bool}
    (h : workflowFinish db now lease outcome reason = .ok (db', result)) : result = true := by
  simp only [workflowFinish, bind_eq_ok] at h
  obtain ⟨_, -, _, -, _, -, _, -, _, -, _, -, _, -, _, -, _, -, _, -, hreturn⟩ := h
  cases hreturn
  rfl

/-- Finishing settles the request with its last execution. -/
theorem workflowFinish_settles (hc : Coherent db) {reason : Option String} {result : Bool}
    (h : workflowFinish db now lease (some outcome) reason = .ok (db', result)) :
    ∃ a, Tracks db' lease.requestId (some a) ∧ a.control.terminalOutcome = some outcome ∧ a.last.id = lease.executionId := by
  have hadvances := workflowFinish_advances hc h
  simp only [workflowFinish, bind_eq_ok, orRaise_eq_ok] at h
  obtain ⟨e, hlease, outcome', houtcome, _, -, _, -, _, -, _, -, _, -, db₁, hupdate, db₂, hcontrol, db₃, hevent, hreturn⟩ := h
  cases houtcome
  cases hreturn
  obtain ⟨r, a, expires, hheld, rfl⟩ := hc.held hlease
  obtain ⟨executions, -, rfl⟩ := updateExecution_eq_ok hupdate
  obtain ⟨requestStates, hrequestStates, rfl⟩ := updateRequestState_eq_ok hcontrol
  obtain ⟨events, rfl, -⟩ := workflowEvent_eq_ok hevent
  obtain ⟨a', ha'⟩ := hadvances.1.represented r hheld.mem
  have hcontrol' : a'.control = { a.control with terminalOutcome := some outcome } := by
    have hfound := ha'.control
    change requestStates.lookup RequestState.requestId r.id = _ at hfound
    rw [Table.lookup_update hrequestStates (fun _ => rfl)] at hfound
    have hbefore := hheld.represents.control
    change db.requestStates.lookup RequestState.requestId r.id = _ at hbefore
    rw [hbefore, Option.map_some, if_pos (hheld.represents.requestId_eq.trans hheld.represents.mem_last.2.symm)] at hfound
    exact (Option.some.inj hfound).symm
  refine ⟨a', ⟨r, ?_, ha'⟩, by rw [hcontrol'], ?_⟩
  · rw [← hheld.request]
    exact request?_of_mem hheld.mem
  · rw [← a'.current, hcontrol', ← hheld.execution]
    exact a.current

/-- The row of a stage attempt that was completed. -/
def completedStage (stage : Uuid) (now : Instant) (s : StageAttempt) : StageAttempt :=
  if s.id = stage then { s with closure := some ⟨.completed, now, none, completed_explained⟩, reusedCaptureIds := [] } else s

/-- The tables after a stage attempt of an execution was completed. -/
structure CompletedStage (db db' : Database) (now : Instant) (e : Execution) (s : StageAttempt) : Prop where
  requests : db'.requests = db.requests
  requestStates : db'.requestStates = db.requestStates
  executions : ∃ current, db'.executions.rows = db.executions.rows.map fun x => if x.id = e.id then { x with currentStage := current } else x
  stages : db'.stages.rows = db.stages.rows.map (completedStage s.id now)

/-- Completing a running stage attempt that is not the result of a monitor is accepted. -/
theorem workflowFinishStage_completed (hlease : workflowLockedLease db now lease = .ok e) (hs : s ∈ db.stages.rows)
    (hown : s.executionId = e.id ∧ s.Running) (hkey : s.stageKey ≠ "sec_monitor_result") (hmonitor : ¬ ofMonitor db e.id) :
    ∃ db', workflowFinishStage db now lease s.id (some .completed) none [] (fun _ => true) = .ok (db', true) ∧
      CompletedStage db db' now e s := by
  have hsame : ∀ t ∈ db.stages.rows, t.id = s.id → t = s := fun t ht hid => List.inj_on_of_nodup_map db.stages.valid.1 ht hs hid
  obtain ⟨closed, hclosed⟩ := closeStages_ok s.id (e := e.id)
    (f := fun s => { s with closure := some ⟨.completed, now, none, Or.inl rfl⟩, reusedCaptureIds := [] })
    (fun _ => ⟨rfl, rfl, rfl, rfl⟩) (fun _ => nofun) fun t ht hid hresult => absurd (hsame t ht hid ▸ hresult) hkey
  obtain ⟨updated, hupdated⟩ := updateExecution_ok closed e.id (f := fun x => { x with currentStage := runningStage closed e.id })
    (fun _ => ⟨rfl, rfl, rfl⟩) fun x hx => (closed.executions.valid.2.2 x hx).2
  obtain ⟨noted, hnoted⟩ := workflowEvent_ok updated e.id (.stageFinished s.id .completed none)
  refine ⟨noted, ?_, ?_⟩
  · have hfound : (db.stages.rows.find? fun t => decide (t.id = s.id ∧ t.executionId = e.id ∧ t.Running)) = some s := by
      cases hfind : db.stages.rows.find? fun t => decide (t.id = s.id ∧ t.executionId = e.id ∧ t.Running) with
      | none =>
        have hnot := List.find?_eq_none.mp hfind s hs
        rw [decide_eq_true_eq] at hnot
        exact absurd ⟨rfl, hown⟩ hnot
      | some t =>
        have ht := List.find?_some hfind
        rw [decide_eq_true_eq] at ht
        rw [hsame t (List.mem_of_find?_eq_some hfind) ht.1]
    have hguard : monitorStageGuard db { s with closure := some ⟨.completed, now, none, Or.inl rfl⟩, reusedCaptureIds := [] } = .ok () := by
      have hnot : ¬ ofMonitor db s.executionId := hown.1 ▸ hmonitor
      simp [monitorStageGuard, hnot, bind_eq_ok]
    unfold workflowFinishStage
    refine bind_eq_ok.mpr ⟨e, hlease, bind_eq_ok.mpr ⟨.completed, rfl, ?_⟩⟩
    rw [dif_pos (Or.inl rfl)]
    exact bind_eq_ok.mpr ⟨(), raiseIf_eq_ok.mpr (by simp), bind_eq_ok.mpr ⟨s, orRaise_eq_ok.mpr hfound, bind_eq_ok.mpr ⟨(), hguard,
      bind_eq_ok.mpr ⟨closed, hclosed, bind_eq_ok.mpr ⟨updated, hupdated, bind_eq_ok.mpr ⟨noted, hnoted, rfl⟩⟩⟩⟩⟩⟩
  · obtain ⟨stages, hstages, rfl⟩ := closeStages_eq_ok hclosed
    obtain ⟨executions, hexecutions, rfl⟩ := updateExecution_eq_ok hupdated
    obtain ⟨events, rfl, -⟩ := workflowEvent_eq_ok hnoted
    refine ⟨rfl, rfl, ⟨_, hexecutions⟩, hstages.trans (List.map_congr_left fun t ht => ?_)⟩
    unfold completedStage
    by_cases hid : t.id = s.id
    · rw [if_pos hid, if_pos (by rw [hsame t ht hid]; exact ⟨rfl, hown⟩)]
    · rw [if_neg hid, if_neg fun h => hid h.1]

namespace CompletedStage

/-- The lease keeps passing, for the execution with another current stage. -/
theorem leased (h : CompletedStage db db' now e s) (hlease : workflowLockedLease db now lease = .ok e) :
    ∃ e', workflowLockedLease db' now lease = .ok e' ∧ e'.id = e.id ∧ e'.requestId = e.requestId := by
  obtain ⟨c, expires, hcontrol, hopen, hcurrent, hepoch, hexecution, hstate, htoken, hlive, hcancelled⟩ :=
    workflowLockedLease_eq_ok.mp hlease
  obtain ⟨current, hexecutions⟩ := h.executions
  refine ⟨{ e with currentStage := current }, workflowLockedLease_eq_ok.mpr ⟨c, expires, ?_, hopen, hcurrent, hepoch, ?_, hstate, htoken,
    hlive, hcancelled⟩, rfl, rfl⟩
  · rw [Database.requestState?, h.requestStates]
    exact hcontrol
  · have hid : e.id = c.currentExecutionId := (Table.lookup_eq_some hexecution).2
    change db.executions.lookup Execution.id c.currentExecutionId = some e at hexecution
    change db'.executions.lookup Execution.id c.currentExecutionId = _
    rw [Table.lookup_update hexecutions (fun _ => rfl), hexecution, Option.map_some, if_pos rfl]

/-- No stage of the execution is running, when no other one was. -/
theorem stopped (h : CompletedStage db db' now e s) (hother : ∀ t ∈ db.stages.rows, t.executionId = e.id → t.Running → t.id = s.id) :
    ¬ ∃ t ∈ db'.stagesOf e.id, t.Running := by
  rintro ⟨t, ht, hrunning⟩
  obtain ⟨hmem, hexecution⟩ := (Table.mem_select _).mp ht
  rw [h.stages] at hmem
  obtain ⟨t', ht', rfl⟩ := List.mem_map.mp hmem
  unfold completedStage at hrunning hexecution
  split at hrunning
  next => cases hrunning
  next hid =>
    rw [if_neg hid] at hexecution
    exact hid (hother t' ht' hexecution hrunning)

/-- The stages of the execution are completed when the other ones were. -/
theorem completed_iff (h : CompletedStage db db' now e s) :
    (¬ ∃ t ∈ db'.stagesOf e.id, ¬ t.Completed) ↔ ∀ t ∈ db.stagesOf e.id, t.id ≠ s.id → t.Completed := by
  unfold Database.stagesOf
  simp only [Table.mem_select, h.stages, List.mem_map, not_exists, not_and, not_not]
  constructor
  · intro hall t ht hid
    have hcompleted := hall (completedStage s.id now t) ⟨⟨t, ht.1, rfl⟩, ?_⟩
    · unfold completedStage at hcompleted
      rwa [if_neg hid] at hcompleted
    · unfold completedStage
      rw [if_neg hid]
      exact ht.2
  · rintro hall t' ⟨⟨t, ht, rfl⟩, hexecution⟩
    unfold completedStage at hexecution ⊢
    split
    next => rfl
    next hid =>
      rw [if_neg hid] at hexecution
      exact hall t ⟨ht, hexecution⟩ hid

/-- Finishing is accepted with gaps, or when the other stages were completed. -/
theorem finish_iff (h : CompletedStage db db' now e s) (hlease : workflowLockedLease db now lease = .ok e)
    (hother : ∀ t ∈ db.stages.rows, t.executionId = e.id → t.Running → t.id = s.id) (hmonitor : ¬ ofMonitor db e.id)
    (houtcome : outcome ∈ [.completed, .completedWithGaps]) :
    (∃ db'', workflowFinish db' now lease (some outcome) none = .ok (db'', true)) ↔
      outcome = .completedWithGaps ∨ ∀ t ∈ db.stagesOf e.id, t.id ≠ s.id → t.Completed := by
  obtain ⟨e', hlease', hid, hrequest⟩ := h.leased hlease
  have hguard : monitorExecutionGuard db' e'.id outcome none = .ok () := by
    have hnot : ¬ ofMonitor db' e'.id := by
      rintro ⟨x, hx, r, hr, htrigger⟩
      obtain ⟨current, hexecutions⟩ := h.executions
      change db'.executions.lookup Execution.id e'.id = some x at hx
      rw [Table.lookup_update hexecutions (fun _ => rfl), hid] at hx
      obtain ⟨x', hx', rfl⟩ := Option.map_eq_some_iff.mp hx
      refine hmonitor ⟨x', hx', r, ?_, htrigger⟩
      rw [Option.mem_def, Database.request?, h.requests] at hr
      split at hr <;> exact hr
    unfold monitorExecutionGuard
    rw [if_neg fun hboth => hnot hboth.1]
    rfl
  rw [workflowFinish_accepted hlease', hid, h.completed_iff.symm]
  have hstopped := h.stopped hother
  rw [hid] at hguard
  simp only [List.mem_cons, List.not_mem_nil, or_false] at houtcome
  rcases houtcome with rfl | rfl
  · simp [hstopped, hguard]
  · simp [hstopped, hguard]

end CompletedStage

end EquityEval.Workflow
