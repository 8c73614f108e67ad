import EquityEval.Workflow.Coherence

/-!
# What each call does

One lemma for each function of the workflow says what it writes when it returns. From it the
tables stay coherent, and the life of the request that it writes to takes the step that the
function is named after.
-/

namespace EquityEval.Workflow

open Relational TransitionSystem

variable {db db' : Database} {now : Instant}

/-! ### Single writes -/

/-- Updating an execution writes its row. -/
theorem updateExecution_eq_ok {x : Uuid} {f : Execution → Execution} (h : db.updateExecution x f = .ok db') :
    ∃ executions : Table Execution ExecutionsValid,
      executions.rows = (db.executions.rows.map fun e => if e.id = x then f e else e) ∧
        db' = { db with executions } := by
  obtain ⟨executions, hwrite, hreturn⟩ := bind_eq_ok.mp h
  exact ⟨executions, Table.update_eq_ok hwrite, (pure_eq_ok.mp hreturn).symm⟩

/-- Updating the state of a request writes its row. -/
theorem updateRequestState_eq_ok {r : Uuid} {g : RequestState → RequestState}
    (h : db.updateRequestState r g = .ok db') :
    ∃ requestStates : Table RequestState RequestStatesValid,
      requestStates.rows = (db.requestStates.rows.map fun c => if c.requestId = r then g c else c) ∧
        db' = { db with requestStates } := by
  obtain ⟨requestStates, hwrite, hreturn⟩ := bind_eq_ok.mp h
  exact ⟨requestStates, Table.update_eq_ok hwrite, (pure_eq_ok.mp hreturn).symm⟩

/-- Closing stage attempts writes the selected rows. -/
theorem closeStages_eq_ok {condition : StageAttempt → Prop} [DecidablePred condition]
    {f : StageAttempt → StageAttempt} (h : db.closeStages condition f = .ok db') :
    ∃ stages : Table StageAttempt StagesValid,
      stages.rows = (db.stages.rows.map fun s => if condition s then f s else s) ∧ db' = { db with stages } := by
  obtain ⟨stages, hwrite, hreturn⟩ := bind_eq_ok.mp h
  exact ⟨stages, Table.update_eq_ok hwrite, (pure_eq_ok.mp hreturn).symm⟩

/-- Inserting an execution appends its row. -/
theorem insertExecution_eq_ok {e : Execution} (h : db.insertExecution e = .ok db') :
    ∃ executions : Table Execution ExecutionsValid,
      executions.rows = db.executions.rows ++ [e] ∧ db' = { db with executions } := by
  obtain ⟨executions, hwrite, hreturn⟩ := bind_eq_ok.mp h
  exact ⟨executions, Table.insert_eq_ok hwrite, (pure_eq_ok.mp hreturn).symm⟩

/-- An event appends its row and keeps the events numbered. -/
theorem workflowEvent_eq_ok {x : Uuid} {kind : EventKind} (h : db.workflowEvent x kind = .ok db') :
    ∃ events : Table ExecutionEvent EventsValid, db' = { db with events } ∧ (Numbered db → Numbered db') := by
  obtain ⟨events, hwrite, hreturn⟩ := bind_eq_ok.mp h
  have hdb' : db' = { db with events } := (pure_eq_ok.mp hreturn).symm
  have hrows := Table.insert_eq_ok hwrite
  exact ⟨events, hdb', fun hnumbered => hnumbered.event (by rw [hdb']; exact hrows)⟩

/-- A row of the stage attempts after those of an execution were closed. -/
theorem mem_closed {rows : List StageAttempt} {x : Uuid} {closure : StageClosure} {s : StageAttempt}
    (h : s ∈ rows.map fun s => if s.executionId = x ∧ s.Running then { s with closure := some closure } else s) :
    (s.executionId ≠ x → s ∈ rows) ∧ (s.executionId = x → ¬ s.Running) := by
  obtain ⟨s', hs', rfl⟩ := List.mem_map.mp h
  by_cases hc : s'.executionId = x ∧ s'.Running
  · rw [if_pos hc]
    exact ⟨fun hne => absurd hc.1 hne, fun _ => by simp⟩
  · rw [if_neg hc]
    exact ⟨fun _ => hs', fun hx hrunning => hc ⟨hx, hrunning⟩⟩

/-- A row of the stage attempts after one of an execution ended. -/
theorem mem_ended {rows : List StageAttempt} {x stage : Uuid} {closure : StageClosure}
    {reused : StageAttempt → List Uuid} {result : StageAttempt → Option MonitorResult} {s : StageAttempt}
    (h : s ∈ rows.map fun s =>
      if s.id = stage ∧ s.executionId = x ∧ s.Running then
        { s with closure := some closure, reusedCaptureIds := reused s, resultReference := result s }
      else s) : s ∈ rows ∨ s.executionId = x := by
  obtain ⟨s', hs', rfl⟩ := List.mem_map.mp h
  split
  next hcondition => exact Or.inr hcondition.2.1
  next => exact Or.inl hs'

/-! ### Leases -/

/-- The lease is that of the current execution of a request and has not expired. -/
structure Held (db : Database) (now : Instant) (lease : Lease) (r : AnalysisRequest) (a : Analysis)
    (expires : Instant) : Prop where
  mem : r ∈ db.requests.rows
  represents : Represents db r a
  unsettled : a.control.terminalOutcome = none
  request : r.id = lease.requestId
  execution : a.last.id = lease.executionId
  epoch : a.control.attemptEpoch = lease.epoch
  token : a.last.fencingToken = lease.fencingToken
  running : a.last.state = .running lease.workerId expires
  live : now < expires

/-- A lease passes exactly when every field of it is current. -/
theorem workflowLockedLease_eq_ok {lease : Lease} {e : Execution} :
    workflowLockedLease db now lease = .ok e ↔
      ∃ c expires, db.requestState? lease.requestId = some c ∧ c.terminalOutcome = none ∧
        c.currentExecutionId = lease.executionId ∧ c.attemptEpoch = lease.epoch ∧
        db.execution? c.currentExecutionId = some e ∧ e.state = .running lease.workerId expires ∧
        e.fencingToken = lease.fencingToken ∧ now < expires ∧ e.cancellationRequestedAt = none := by
  simp only [workflowLockedLease, bind_eq_ok, orRaise_eq_ok, raiseIf_eq_ok, not_or, not_not]
  constructor
  · intro h
    obtain ⟨c, hc, _, ⟨hopen, hcurrent, hepoch⟩, e', he', h⟩ := h
    cases hstate : e'.state with
    | running owner expires =>
      simp only [hstate, bind_eq_ok, raiseIf_eq_ok, not_or, not_not, not_le] at h
      obtain ⟨_, ⟨howner, htoken, hlive, hcancelled⟩, h⟩ := h
      cases h
      exact ⟨c, expires, hc, hopen, hcurrent, hepoch, he', by rw [hstate, howner], htoken, hlive, hcancelled⟩
    | _ =>
      simp only [hstate] at h
      cases h
  · intro h
    obtain ⟨c, expires, hc, hopen, hcurrent, hepoch, he, hstate, htoken, hlive, hcancelled⟩ := h
    refine ⟨c, hc, (), ⟨hopen, hcurrent, hepoch⟩, e, he, ?_⟩
    simp only [hstate, bind_eq_ok, raiseIf_eq_ok, not_or, not_not, not_le]
    exact ⟨(), ⟨trivial, htoken, hlive, hcancelled⟩, rfl⟩

/-- In coherent tables the execution of a lease that passes is the current one of its request. -/
theorem Coherent.held (hc : Coherent db) {lease : Lease} {e : Execution}
    (h : workflowLockedLease db now lease = .ok e) : ∃ r a expires, Held db now lease r a expires ∧ a.last = e := by
  obtain ⟨c, expires, hcontrol, hopen, hcurrent, hepoch, he, hstate, htoken, hlive, -⟩ :=
    workflowLockedLease_eq_ok.mp h
  obtain ⟨hmemc, hrequest⟩ := Table.lookup_eq_some hcontrol
  obtain ⟨r, hr, hrc⟩ := hc.controls c hmemc
  obtain ⟨a, ha⟩ := hc.represented r hr
  have hac : a.control = c := by
    have hfound := ha.control
    rw [hrc, hrequest, hcontrol] at hfound
    exact (Option.some.inj hfound).symm
  have hae : a.last = e := by
    have hfound := ha.execution?_last
    rw [hac, he] at hfound
    exact (Option.some.inj hfound).symm
  subst hac hae
  exact ⟨r, a, expires, ⟨hr, ha, hopen, hrc.trans hrequest, a.current.symm.trans hcurrent, hepoch, htoken, hstate,
    hlive⟩, rfl⟩

/-- Updates that only touch the row of a running execution step its life by a note. -/
theorem advances_note {lease : Lease} {r : AnalysisRequest} {a : Analysis} {expires : Instant}
    {f : Execution → Execution} {stages : List StageAttempt} (hc : Coherent db)
    (hheld : Held db now lease r a expires) (h : Effect db db' r.id a.last.id f id [] stages)
    (hf : ∀ e, SameExecution e (f e)) (hstate : ∀ e, (f e).state = e.state)
    (htoken : ∀ e, (f e).fencingToken = e.fencingToken)
    (hcancellation : ∀ e, (f e).cancellationRequestedAt = e.cancellationRequestedAt)
    (hkeep : ∀ s ∈ stages, s.executionId ≠ a.last.id → s ∈ db.stages.rows) : Advances now db db' := by
  have hrunning : (f a.last).state.isRunning = true := by
    rw [hstate, hheld.running]
    rfl
  have hunfinished : (f a.last).Unfinished := by
    refine ⟨?_, (hcancellation _).trans (a.unsettled hheld.unsettled).2⟩
    rw [hstate, hheld.running]
    rfl
  let a' := a.work (f a.last) (hf a.last) hheld.unsettled hunfinished
  have hrep' : Represents db' r a' :=
    h.represents hheld.represents (fun e => (hf e).requestId) (fun _ => rfl) (by simp) rfl rfl rfl
  apply h.advances hc hheld.mem hheld.represents hrep' hf (fun _ => rfl) (by simp)
    (.note (hf a.last) hheld.unsettled hunfinished (hstate _) (htoken _)) hkeep (fun _ _ _ _ => hrunning)
  intro hdone
  exact absurd (hheld.unsettled.symm.trans hdone) (by simp)

/-- An execution whose lease ends at another time, when it runs. -/
def Execution.until (e : Execution) (expires : Instant) : Execution :=
  match e.state with
  | .running leaseOwner _ => { e with state := .running leaseOwner expires }
  | _ => e

/-- Renewing a lease advances the tables. -/
theorem workflowRenew_advances (hc : Coherent db) {lease : Lease} {duration : ℤ}
    {result : Option (Lease × Instant)} (h : workflowRenew db now lease duration = .ok (db', result)) :
    Advances now db db' := by
  simp only [workflowRenew, bind_eq_ok] at h
  obtain ⟨_, -, e, hlease, db₁, hupdate, db₂, hevent, hreturn⟩ := h
  cases hreturn
  obtain ⟨r, a, expires, hheld, rfl⟩ := hc.held hlease
  obtain ⟨executions, hexecutions, rfl⟩ := updateExecution_eq_ok hupdate
  obtain ⟨events, hdb', hnumbered⟩ := workflowEvent_eq_ok hevent
  let f : Execution → Execution := fun e => e.until (now + seconds duration)
  have hsame : ∀ e, SameExecution e (f e) := by
    intro e
    cases hs : e.state <;> simp only [f, Execution.until, hs] <;> exact ⟨rfl, rfl, rfl⟩
  have hf : f a.last = { a.last with state := .running lease.workerId (now + seconds duration) } := by
    simp only [f, Execution.until, hheld.running]
  have heffect : Effect db db' r.id a.last.id f id [] db.stages.rows := by
    subst hdb'
    exact ⟨rfl, (List.append_nil _).symm ▸ hexecutions, by simp, rfl, hnumbered, rfl, rfl, rfl, rfl⟩
  have hstate : (f a.last).state = .running lease.workerId (now + seconds duration) := by rw [hf]
  have hunfinished : (f a.last).Unfinished := by
    rw [hf]
    exact ⟨rfl, (a.unsettled hheld.unsettled).2⟩
  let a' := a.work (f a.last) (hsame a.last) hheld.unsettled hunfinished
  have hrep' : Represents db' r a' :=
    heffect.represents hheld.represents (fun e => (hsame e).requestId) (fun _ => rfl) (by simp) rfl rfl rfl
  apply heffect.advances hc hheld.mem hheld.represents hrep' hsame (fun _ => rfl) (by simp)
    (.renew (hsame a.last) hheld.unsettled hunfinished hheld.running hheld.live hstate (by rw [hf]))
    (fun s hs _ => hs) (fun _ _ _ _ => by rw [hstate]; rfl)
  intro hdone
  exact absurd (hheld.unsettled.symm.trans hdone) (by simp)

/-- Starting a stage attempt advances the tables. -/
theorem workflowStartStage_advances (hc : Coherent db) {lease : Lease} {key : String} {stage result : Uuid}
    (h : workflowStartStage db now lease key stage = .ok (db', result)) : Advances now db db' := by
  simp only [workflowStartStage, bind_eq_ok] at h
  obtain ⟨e, hlease, _, -, stages, hinsert, db₁, hupdate, db₂, hevent, hreturn⟩ := h
  cases hreturn
  obtain ⟨r, a, expires, hheld, rfl⟩ := hc.held hlease
  have hstages := Table.insert_eq_ok hinsert
  obtain ⟨executions, hexecutions, rfl⟩ := updateExecution_eq_ok hupdate
  obtain ⟨events, hdb', hnumbered⟩ := workflowEvent_eq_ok hevent
  have heffect : Effect db db' r.id a.last.id (fun e => { e with currentStage := some key }) id [] stages.rows := by
    subst hdb'
    exact ⟨rfl, (List.append_nil _).symm ▸ hexecutions, by simp, rfl, hnumbered, rfl, rfl, rfl, rfl⟩
  apply advances_note hc hheld heffect (fun _ => ⟨rfl, rfl, rfl⟩) (fun _ => rfl) (fun _ => rfl) (fun _ => rfl)
  intro s hs hne
  rw [hstages] at hs
  rcases List.mem_append.mp hs with hold | hnew
  · exact hold
  · rw [List.mem_singleton.mp hnew] at hne
    exact absurd rfl hne

/-- Ending a stage attempt advances the tables. -/
theorem workflowFinishStage_advances (hc : Coherent db) {lease : Lease} {stage : Uuid}
    {outcome : Option StageOutcome} {reason : Option String} {reused : List Uuid} {reusable : Uuid → Bool}
    {result : Bool} (h : workflowFinishStage db now lease stage outcome reason reused reusable = .ok (db', result)) :
    Advances now db db' := by
  simp only [workflowFinishStage, bind_eq_ok] at h
  obtain ⟨e, hlease, outcome, -, h⟩ := h
  split at h
  case isFalse => cases h
  case isTrue hexplained =>
    simp only [bind_eq_ok] at h
    obtain ⟨_, -, found, -, _, -, db₁, hclose, db₂, hupdate, db₃, hevent, hreturn⟩ := h
    cases hreturn
    obtain ⟨r, a, expires, hheld, rfl⟩ := hc.held hlease
    obtain ⟨stages, hstages, rfl⟩ := closeStages_eq_ok hclose
    obtain ⟨executions, hexecutions, rfl⟩ := updateExecution_eq_ok hupdate
    obtain ⟨events, hdb', hnumbered⟩ := workflowEvent_eq_ok hevent
    have heffect : Effect db db' r.id a.last.id
        (fun e => { e with currentStage := runningStage { db with stages } a.last.id }) id [] stages.rows := by
      subst hdb'
      exact ⟨rfl, (List.append_nil _).symm ▸ hexecutions, by simp, rfl, hnumbered, rfl, rfl, rfl, rfl⟩
    apply advances_note hc hheld heffect (fun _ => ⟨rfl, rfl, rfl⟩) (fun _ => rfl) (fun _ => rfl) (fun _ => rfl)
    intro s hs hne
    rw [hstages] at hs
    exact (mem_ended hs).resolve_right (fun hx => hne hx)

/-! ### Ends of an execution -/

/-- Writes that end the current execution of a request with the request settle its life. -/
theorem advances_settle {r : AnalysisRequest} {a : Analysis} {f : Execution → Execution}
    {g : RequestState → RequestState} {stages : List StageAttempt} {outcome : Outcome} {epoch : ℕ}
    (hc : Coherent db) (hr : r ∈ db.requests.rows) (hrep : Represents db r a)
    (hopen : a.control.terminalOutcome = none) (h : Effect db db' r.id a.last.id f g [] stages)
    (hf : ∀ e, SameExecution e (f e)) (hended : ∀ e, (f e).state = .ended outcome)
    (hfinished : ∀ e, (f e).finishedAt ≠ none) (hg : ∀ c, (g c).requestId = c.requestId)
    (hcontrol : g a.control = { a.control with terminalOutcome := some outcome, attemptEpoch := epoch })
    (hepoch : a.control.attemptEpoch ≤ epoch)
    (hkeep : ∀ s ∈ stages, s.executionId ≠ a.last.id → s ∈ db.stages.rows)
    (hstopped : ∀ s ∈ stages, s.executionId = a.last.id → ¬ s.Running)
    (hcompleted : outcome = .completed → ∀ s ∈ stages, s.executionId = a.last.id → s.Completed) :
    Advances now db db' := by
  let a' := a.settle (f a.last) outcome (hf a.last) (hended a.last) (hfinished a.last) epoch
  have hrep' : Represents db' r a' :=
    h.represents hrep (fun e => (hf e).requestId) hg (by simp) hcontrol.symm rfl rfl
  apply h.advances hc hr hrep hrep' hf hg (by simp)
    (.settle (hf a.last) (hended a.last) (hfinished a.last) hopen hepoch) hkeep
    (fun s hs hx hrunning => absurd hrunning (hstopped s hs hx))
  intro hdone
  exact ⟨a.current, hcompleted (Option.some.inj hdone)⟩

/-- Finishing an execution advances the tables. -/
theorem workflowFinish_advances (hc : Coherent db) {lease : Lease} {outcome : Option Outcome}
    {reason : Option String} {result : Bool} (h : workflowFinish db now lease outcome reason = .ok (db', result)) :
    Advances now db db' := by
  simp only [workflowFinish, bind_eq_ok, raiseIf_eq_ok] at h
  obtain ⟨e, hlease, outcome, -, _, -, _, hstopped, _, hcompleted, _, -, _, -, db₁, hupdate, db₂, hcontrol, db₃,
    hevent, hreturn⟩ := h
  cases hreturn
  obtain ⟨r, a, expires, hheld, rfl⟩ := hc.held hlease
  obtain ⟨executions, hexecutions, rfl⟩ := updateExecution_eq_ok hupdate
  obtain ⟨requestStates, hrequestStates, rfl⟩ := updateRequestState_eq_ok hcontrol
  obtain ⟨events, hdb', hnumbered⟩ := workflowEvent_eq_ok hevent
  rw [hheld.represents.mem_last.2] at hrequestStates
  have heffect : Effect db db' r.id a.last.id
      (fun e => { e with state := .ended outcome, finishedAt := some now, currentStage := none, errorCode := reason })
      (fun c => { c with terminalOutcome := some outcome }) [] db.stages.rows := by
    subst hdb'
    exact ⟨rfl, (List.append_nil _).symm ▸ hexecutions, hrequestStates, rfl, hnumbered, rfl, rfl, rfl, rfl⟩
  have hof : ∀ s ∈ db.stages.rows, s.executionId = a.last.id → s ∈ db.stagesOf a.last.id :=
    fun s hs hx => (Table.mem_select _).mpr ⟨hs, hx⟩
  apply advances_settle hc hheld.mem hheld.represents hheld.unsettled heffect (fun _ => ⟨rfl, rfl, rfl⟩)
    (fun _ => rfl) (fun _ => by simp) (fun _ => rfl) rfl (le_refl _) (fun s hs _ => hs)
  · intro s hs hx hrunning
    exact hstopped ⟨s, hof s hs hx, hrunning⟩
  · intro hdone s hs hx
    by_contra hgap
    exact hcompleted ⟨hdone, s, hof s hs hx, hgap⟩

/-- Cancelling a request advances the tables. -/
theorem workflowCancel_advances (hc : Coherent db) {request : Uuid} {result : Bool}
    (h : workflowCancel db now request = .ok (db', result)) : Advances now db db' := by
  simp only [workflowCancel, bind_eq_ok, orRaise_eq_ok] at h
  obtain ⟨c, hcontrol, h⟩ := h
  split at h
  case isTrue =>
    cases h
    exact hc.advances_self
  case isFalse hopen =>
    simp only [bind_eq_ok] at h
    obtain ⟨db₁, hclose, db₂, hupdate, db₃, hstate, db₄, hevent, hreturn⟩ := h
    cases hreturn
    obtain ⟨stages, hstages, rfl⟩ := closeStages_eq_ok hclose
    obtain ⟨executions, hexecutions, rfl⟩ := updateExecution_eq_ok hupdate
    obtain ⟨requestStates, hrequestStates, rfl⟩ := updateRequestState_eq_ok hstate
    obtain ⟨events, hdb', hnumbered⟩ := workflowEvent_eq_ok hevent
    obtain ⟨hmemc, hrequest⟩ := Table.lookup_eq_some hcontrol
    obtain ⟨r, hr, hrc⟩ := hc.controls c hmemc
    obtain ⟨a, ha⟩ := hc.represented r hr
    have hac : a.control = c := by
      have hfound := ha.control
      rw [hrc, hrequest] at hfound
      exact Option.some.inj (hfound.symm.trans hcontrol)
    subst hac
    rw [a.current] at hstages hexecutions
    have heffect : Effect db db' r.id a.last.id
        (fun e => { e with
          state := .ended .cancelled, finishedAt := some now, cancellationRequestedAt := some now,
          currentStage := none, errorCode := some Reason.userCancelled.val })
        (fun c => { c with terminalOutcome := some .cancelled, attemptEpoch := c.attemptEpoch + 1 }) []
        stages.rows := by
      subst hdb'
      rw [hrc, hrequest]
      exact ⟨rfl, (List.append_nil _).symm ▸ hexecutions, hrequestStates, rfl, hnumbered, rfl, rfl, rfl, rfl⟩
    apply advances_settle hc hr ha (not_not.mp hopen) heffect (fun _ => ⟨rfl, rfl, rfl⟩) (fun _ => rfl)
      (fun _ => by simp) (fun _ => rfl) rfl (Nat.le_succ _)
    · intro s hs hx
      rw [hstages] at hs
      exact (mem_closed hs).1 hx
    · intro s hs hx
      rw [hstages] at hs
      exact (mem_closed hs).2 hx
    · intro hdone
      cases hdone

/-- Closing the current execution of an unsettled request advances the tables; what is left is
either no execution, or one that is queued and current. -/
theorem workflowCloseRetry_advances (hc : Coherent db) {r : AnalysisRequest} {a : Analysis}
    (hr : r ∈ db.requests.rows) (hrep : Represents db r a) (hopen : a.control.terminalOutcome = none)
    {error : Reason} {delay : ℤ} {following : Uuid} {next : Option Uuid}
    (h : workflowCloseRetry db now a.last.id error delay following = .ok (db', next)) :
    Advances now db db' ∧ ∀ x ∈ next, r ∈ db'.requests.rows ∧ ∃ a', Represents db' r a' ∧
      a'.control.terminalOutcome = none ∧ a'.last.id = x ∧ a'.last.state = .queued := by
  simp only [workflowCloseRetry, bind_eq_ok, orRaise_eq_ok] at h
  obtain ⟨previous, hprevious, request, hrequest, db₁, hclose, db₂, hupdate, h⟩ := h
  obtain ⟨hlast, hlastRequest⟩ := hrep.mem_last
  have hpa : a.last = previous := Option.some.inj ((execution?_of_mem hlast).symm.trans hprevious)
  subst hpa
  rw [hlastRequest, request?_of_mem hr] at hrequest
  cases hrequest
  obtain ⟨stages, hstages, rfl⟩ := closeStages_eq_ok hclose
  obtain ⟨executions, hexecutions, rfl⟩ := updateExecution_eq_ok hupdate
  have hkeep : ∀ s ∈ stages.rows, s.executionId ≠ a.last.id → s ∈ db.stages.rows := by
    intro s hs hx
    rw [hstages] at hs
    exact (mem_closed hs).1 hx
  have hstopped : ∀ s ∈ stages.rows, s.executionId = a.last.id → ¬ s.Running := by
    intro s hs hx
    rw [hstages] at hs
    exact (mem_closed hs).2 hx
  let f : Execution → Execution := fun e =>
    { e with state := .ended .failed, finishedAt := some now, errorCode := some error.val, currentStage := none }
  split at h
  case isTrue hused =>
    simp only [bind_eq_ok] at h
    obtain ⟨db₃, hstate, db₄, hevent, hreturn⟩ := h
    cases hreturn
    obtain ⟨requestStates, hrequestStates, rfl⟩ := updateRequestState_eq_ok hstate
    obtain ⟨events, hdb', hnumbered⟩ := workflowEvent_eq_ok hevent
    rw [hlastRequest] at hrequestStates
    have heffect : Effect db db' r.id a.last.id f
        (fun c => { c with terminalOutcome := some .failed, attemptEpoch := c.attemptEpoch + 1 }) [] stages.rows := by
      subst hdb'
      exact ⟨rfl, (List.append_nil _).symm ▸ hexecutions, hrequestStates, rfl, hnumbered, rfl, rfl, rfl, rfl⟩
    exact ⟨advances_settle hc hr hrep hopen heffect (fun _ => ⟨rfl, rfl, rfl⟩) (fun _ => rfl)
      (fun _ => by simp [f]) (fun _ => rfl) rfl (Nat.le_succ _) hkeep hstopped (by simp), by simp⟩
  case isFalse hused =>
    simp only [bind_eq_ok] at h
    obtain ⟨db₃, hinsert, db₄, hstate, db₅, hevent, db₆, hevent', hreturn⟩ := h
    cases hreturn
    obtain ⟨executions', hexecutions', rfl⟩ := insertExecution_eq_ok hinsert
    obtain ⟨requestStates, hrequestStates, rfl⟩ := updateRequestState_eq_ok hstate
    obtain ⟨events, rfl, hnumbered⟩ := workflowEvent_eq_ok hevent
    obtain ⟨events', hdb', hnumbered'⟩ := workflowEvent_eq_ok hevent'
    rw [hlastRequest] at hrequestStates hexecutions'
    have hleft : (a.last.attemptNo : ℤ) < a.maxAttempts := by
      rw [← hrep.maxAttempts]
      exact not_le.mp hused
    let a' := a.supersede (f a.last) ⟨rfl, rfl, rfl⟩ rfl (by simp [f]) following (now + seconds delay)
      hleft hopen
    let g : RequestState → RequestState := fun c =>
      { c with currentExecutionId := following, attemptEpoch := c.attemptEpoch + 1 }
    have heffect : Effect db db' r.id a.last.id f g [a'.last] stages.rows := by
      subst hdb'
      refine ⟨rfl, ?_, hrequestStates, rfl, fun h => hnumbered' (hnumbered h), rfl, rfl, rfl, rfl⟩
      rw [← hexecutions]
      simpa [a', Analysis.supersede, hrep.requestId_eq] using hexecutions'
    have hadded : ∀ e ∈ [a'.last], e.requestId = r.id := by
      intro e he
      rw [List.mem_singleton.mp he]
      exact hrep.requestId_eq
    have happend : a'.past ++ [a'.last] = a.past ++ f a.last :: [a'.last] := by simp [a', Analysis.supersede]
    have hrep' : Represents db' r a' :=
      heffect.represents hrep (fun _ => rfl) (fun _ => rfl) hadded rfl happend rfl
    constructor
    · apply heffect.advances hc hr hrep hrep' (fun _ => ⟨rfl, rfl, rfl⟩) (fun _ => rfl) hadded
        (.supersede _ _ _ _ _ _ hopen) hkeep (fun s hs hx hrunning => absurd hrunning (hstopped s hs hx))
      intro hdone
      exact absurd (hopen.symm.trans hdone) (by simp)
    · intro x hx
      cases hx
      exact ⟨by rw [heffect.requests]; exact hr, a', hrep', hopen, rfl, rfl⟩

/-- Giving an execution up advances the tables. -/
theorem workflowRetry_advances (hc : Coherent db) {lease : Lease} {error : Option String} {delay : ℤ}
    {following : Uuid} {next : Option Uuid}
    (h : workflowRetry db now lease error delay following = .ok (db', next)) : Advances now db db' := by
  simp only [workflowRetry, bind_eq_ok] at h
  obtain ⟨_, -, error, -, e, hlease, h⟩ := h
  obtain ⟨r, a, expires, hheld, rfl⟩ := hc.held hlease
  exact (workflowCloseRetry_advances hc hheld.mem hheld.represents hheld.unsettled h).1

/-! ### Claims -/

/-- Giving a queued execution to a worker advances the tables. -/
theorem claimExecution_advances (hc : Coherent db) {r : AnalysisRequest} {a : Analysis}
    (hr : r ∈ db.requests.rows) (hrep : Represents db r a) (hopen : a.control.terminalOutcome = none)
    (hqueued : a.last.state = .queued) {worker : String} {duration : ℤ} {result : Option (Lease × Instant)}
    (h : claimExecution db now a.last.id worker duration = .ok (db', result)) : Advances now db db' := by
  simp only [claimExecution, bind_eq_ok] at h
  obtain ⟨db₁, hupdate, db₂, hevent, hreturn⟩ := h
  cases hreturn
  obtain ⟨executions, hexecutions, rfl⟩ := updateExecution_eq_ok hupdate
  obtain ⟨events, hdb', hnumbered⟩ := workflowEvent_eq_ok hevent
  let f : Execution → Execution := fun e =>
    { e with
      state := .running worker (now + seconds duration), fencingToken := e.fencingToken + 1, startedAt := some now }
  have heffect : Effect db db' r.id a.last.id f id [] db.stages.rows := by
    subst hdb'
    exact ⟨rfl, (List.append_nil _).symm ▸ hexecutions, by simp, rfl, hnumbered, rfl, rfl, rfl, rfl⟩
  have hunfinished : (f a.last).Unfinished := ⟨rfl, (a.unsettled hopen).2⟩
  let a' := a.work (f a.last) ⟨rfl, rfl, rfl⟩ hopen hunfinished
  have hrep' : Represents db' r a' :=
    heffect.represents hrep (fun _ => rfl) (fun _ => rfl) (by simp) rfl rfl rfl
  apply heffect.advances hc hr hrep hrep' (fun _ => ⟨rfl, rfl, rfl⟩) (fun _ => rfl) (by simp)
    (.claim _ hopen hunfinished hqueued rfl) (fun s hs _ => hs) (fun _ _ _ _ => rfl)
  intro hdone
  exact absurd (hopen.symm.trans hdone) (by simp)

/-- A candidate is an unsettled request whose current execution is due. -/
theorem Coherent.candidate (hc : Coherent db) {selects : AnalysisRequest → Bool} {locked : Uuid → Bool}
    {c : Candidate} (h : nextCandidate db now selects locked = some c) :
    c.request ∈ db.requests.rows ∧ ∃ a, Represents db c.request a ∧ a.control = c.control ∧ a.last = c.execution ∧
      a.control.terminalOutcome = none ∧ selects c.request = true ∧ a.last.due now = true := by
  have hmem := List.argmin_mem h
  simp only [candidates, List.mem_filterMap] at hmem
  obtain ⟨control, hcontrol, hfound⟩ := hmem
  obtain ⟨e, he, hfound⟩ := Option.bind_eq_some_iff.mp hfound
  obtain ⟨r, hr, hfound⟩ := Option.bind_eq_some_iff.mp hfound
  split at hfound
  case isFalse => cases hfound
  case isTrue hcondition =>
    cases hfound
    obtain ⟨hselects, -, hopen, hdue⟩ := hcondition
    obtain ⟨hmemr, hid⟩ := Table.lookup_eq_some hr
    obtain ⟨a, ha⟩ := hc.represented r hmemr
    have hac : a.control = control := by
      have hstate := ha.control
      rw [hid, requestState?_of_mem hcontrol] at hstate
      exact (Option.some.inj hstate).symm
    have hae : a.last = e := by
      have hlast := ha.execution?_last
      rw [hac, he] at hlast
      exact (Option.some.inj hlast).symm
    exact ⟨hmemr, a, ha, hac, hae, by rw [hac]; exact hopen, hselects, by rw [hae]; exact hdue⟩

/-- Every round of a claim advances the tables. -/
theorem claimLoop_advances {selects : AnalysisRequest → Bool} {locked : Uuid → Bool} {worker : String}
    {duration : ℤ} {following : Uuid} {result : Option (Lease × Instant)} (rounds : ℕ) (hc : Coherent db)
    (h : claimLoop now selects locked worker duration following rounds db = .ok (db', result)) :
    Advances now db db' := by
  induction rounds generalizing db with
  | zero =>
    cases h
    exact hc.advances_self
  | succ rounds ih =>
    unfold claimLoop at h
    split at h
    case h_1 =>
      cases h
      exact hc.advances_self
    case h_2 c hnext =>
      obtain ⟨hr, a, hrep, -, hae, hopen, -, hdue⟩ := hc.candidate hnext
      rw [← hae] at h
      split at h
      case isTrue hrunning =>
        obtain ⟨⟨db₁, next⟩, hclose, h⟩ := bind_eq_ok.mp h
        obtain ⟨hadvances, hqueued⟩ := workflowCloseRetry_advances hc hr hrep hopen hclose
        cases next with
        | none => exact hadvances.trans (ih hadvances.1 h)
        | some next =>
          obtain ⟨hr', a', hrep', hopen', hlast, hstate⟩ := hqueued next rfl
          rw [← hlast] at h
          exact hadvances.trans (claimExecution_advances hadvances.1 hr' hrep' hopen' hstate h)
      case isFalse hrunning =>
        have hqueued : a.last.state = .queued := by
          cases hs : a.last.state <;> simp_all [Execution.due, ExecutionState.isRunning]
        exact claimExecution_advances hc hr hrep hopen hqueued h

/-- A claim advances the tables. -/
theorem claimSelected_advances (hc : Coherent db) {selects : AnalysisRequest → Bool} {locked : Uuid → Bool}
    {worker : String} {duration : ℤ} {following : Uuid} {result : Option (Lease × Instant)}
    (h : claimSelected db now selects locked worker duration following = .ok (db', result)) :
    Advances now db db' := by
  obtain ⟨_, -, hloop⟩ := bind_eq_ok.mp h
  exact claimLoop_advances _ hc hloop

/-! ### New requests -/

/-- Writes to other tables leave the lives of the requests alone. -/
theorem Coherent.advances_congr (hc : Coherent db) (hrequests : db'.requests = db.requests)
    (hexecutions : db'.executions = db.executions) (hstates : db'.requestStates = db.requestStates)
    (hstages : db'.stages = db.stages) (hevents : db'.events = db.events) : Advances now db db' := by
  have hrep : ∀ r a, Represents db r a → Represents db' r a := by
    intro r a h
    constructor
    · rw [← h.control, Database.requestState?, hstates]
      rfl
    · rw [← h.executions, Database.executionsOf, hexecutions]
      rfl
    · exact h.maxAttempts
  constructor
  · constructor
    case represented =>
      rw [hrequests]
      exact fun r hr => (hc.represented r hr).imp (hrep r)
    case controls => rw [hstates, hrequests]; exact hc.controls
    case executions => rw [hexecutions, hrequests]; exact hc.executions
    case stages => rw [hstages, hexecutions]; exact hc.stages
    case completed => rw [hstates, hstages]; exact hc.completed
    case numbered =>
      intro x
      rw [Database.eventsOf, hevents]
      exact hc.numbered x
  · intro id analysis htracks
    refine ⟨analysis, .refl _, ?_⟩
    have hlookup : db'.request? id = db.request? id := by
      unfold Database.request?
      rw [hrequests]
    cases analysis with
    | none => exact hlookup.trans htracks
    | some a =>
      obtain ⟨r, hr, ha⟩ := htracks
      exact ⟨r, hlookup.trans hr, hrep r a ha⟩

/-- What creating a request writes. -/
structure Created (db db' : Database) (now : Instant) (r : AnalysisRequest) (execution : Uuid) : Prop where
  requests : db'.requests.rows = db.requests.rows ++ [r]
  keys : db'.keys.rows = db.keys.rows ++ [⟨r.workspaceId, r.idempotencyKey, r.id, r.parametersHash⟩]
  executions : db'.executions.rows = db.executions.rows ++
    [{ id := execution, requestId := r.id, attemptNo := 1, state := .queued, availableAt := now }]
  requestStates : db'.requestStates.rows = db.requestStates.rows ++
    [{ requestId := r.id, currentExecutionId := execution, attemptEpoch := 1 }]
  stages : db'.stages = db.stages
  numbered : Numbered db → Numbered db'
  memberships : db'.memberships = db.memberships
  workspaces : db'.workspaces = db.workspaces
  watchlists : db'.watchlists = db.watchlists

/-- Creating a request appends it with its key, its execution and its state. -/
theorem createRequest_eq_ok {r : AnalysisRequest} {execution : Uuid}
    (h : createRequest db now r execution = .ok db') :
    Created db db' now r execution ∧ workflowValidateRequest db r = .ok () := by
  simp only [createRequest, insertKey, bind_eq_ok] at h
  obtain ⟨_, hvalid, requests, hrequests, db₁, ⟨keys, hkeys, hkeyReturn⟩, db₂, hinsert, requestStates, hstates,
    hevent⟩ := h
  cases hkeyReturn
  obtain ⟨executions, hexecutions, rfl⟩ := insertExecution_eq_ok hinsert
  obtain ⟨events, rfl, hnumbered⟩ := workflowEvent_eq_ok hevent
  exact ⟨⟨Table.insert_eq_ok hrequests, Table.insert_eq_ok hkeys, hexecutions, Table.insert_eq_ok hstates, rfl,
    hnumbered, rfl, rfl, rfl⟩, hvalid⟩

namespace Created

variable {r : AnalysisRequest} {execution : Uuid}

/-- The identifier of a created request is new. -/
theorem id_ne (h : Created db db' now r execution) {q : AnalysisRequest} (hq : q ∈ db.requests.rows) :
    q.id ≠ r.id := by
  have hunique := db'.requests.valid.1
  rw [h.requests, UniqueBy, List.map_append, List.map_singleton, List.nodup_append] at hunique
  exact hunique.2.2 _ (List.mem_map_of_mem hq) _ (List.mem_singleton_self _)

/-- A created request passes its checks. -/
theorem checked (h : Created db db' now r execution) : r.Checked :=
  db'.requests.valid.2.2.2 r (by rw [h.requests]; simp)

/-- An older request is represented as before. -/
theorem represents_other (h : Created db db' now r execution) {q : AnalysisRequest} {b : Analysis}
    (hq : q ∈ db.requests.rows) (hb : Represents db q b) : Represents db' q b where
  control := by
    rw [Database.requestState?, Table.lookup_insert h.requestStates]
    rw [show db.requestStates.lookup RequestState.requestId q.id = some b.control from hb.control]
    rfl
  executions := by
    rw [Database.executionsOf, Table.select_insert _ h.executions]
    simpa [Ne.symm (h.id_ne hq), Database.executionsOf] using hb.executions
  maxAttempts := hb.maxAttempts

/-- A created request is represented by its queued execution. -/
theorem represents (h : Created db db' now r execution) (hc : Coherent db) :
    Represents db' r (.start r.id execution now r.options.maxAttempts h.checked.2.2.2.1) where
  control := by
    have hnone : db.requestStates.lookup RequestState.requestId r.id = none := by
      apply Table.lookup_eq_none.mpr
      intro c hmem heq
      obtain ⟨q, hq, hqc⟩ := hc.controls c hmem
      exact h.id_ne hq (hqc.trans heq)
    rw [Database.requestState?, Table.lookup_insert h.requestStates, hnone]
    simp [Analysis.start]
  executions := by
    have hnone : db.executions.select (·.requestId = r.id) = [] := by
      apply List.eq_nil_iff_forall_not_mem.mpr
      intro e he
      obtain ⟨hmem, heq⟩ := (Table.mem_select _).mp he
      obtain ⟨q, hq, hqe⟩ := hc.executions e hmem
      exact h.id_ne hq (hqe.trans heq)
    rw [Database.executionsOf, Table.select_insert _ h.executions, hnone]
    simp [Analysis.start]
  maxAttempts := rfl

/-- Creating a request advances the tables. -/
theorem advances (h : Created db db' now r execution) (hc : Coherent db) : Advances now db db' := by
  have hold : ∀ {q : AnalysisRequest}, q ∈ db.requests.rows → q ∈ db'.requests.rows := by
    intro q hq
    rw [h.requests]
    exact List.mem_append.mpr (Or.inl hq)
  have hr : r ∈ db'.requests.rows := by
    rw [h.requests]
    simp
  constructor
  · constructor
    case represented =>
      intro q hq
      rw [h.requests] at hq
      rcases List.mem_append.mp hq with hq | hq
      · obtain ⟨b, hb⟩ := hc.represented q hq
        exact ⟨b, h.represents_other hq hb⟩
      · rw [List.mem_singleton.mp hq]
        exact ⟨_, h.represents hc⟩
    case controls =>
      intro c hmem
      rw [h.requestStates] at hmem
      rcases List.mem_append.mp hmem with hmem | hmem
      · obtain ⟨q, hq, hqc⟩ := hc.controls c hmem
        exact ⟨q, hold hq, hqc⟩
      · rw [List.mem_singleton.mp hmem]
        exact ⟨r, hr, rfl⟩
    case executions =>
      intro e hmem
      rw [h.executions] at hmem
      rcases List.mem_append.mp hmem with hmem | hmem
      · obtain ⟨q, hq, hqe⟩ := hc.executions e hmem
        exact ⟨q, hold hq, hqe⟩
      · rw [List.mem_singleton.mp hmem]
        exact ⟨r, hr, rfl⟩
    case stages =>
      intro s hs
      rw [h.stages] at hs
      obtain ⟨e, he, hes⟩ := hc.stages s hs
      exact ⟨e, by rw [h.executions]; exact List.mem_append.mpr (Or.inl he), hes⟩
    case completed =>
      intro c hmem hdone
      rw [h.requestStates] at hmem
      rw [h.stages]
      rcases List.mem_append.mp hmem with hmem | hmem
      · exact hc.completed c hmem hdone
      · rw [List.mem_singleton.mp hmem] at hdone
        cases hdone
    case numbered => exact h.numbered hc.numbered
  · intro id analysis htracks
    match analysis, htracks with
    | none, htracks =>
      by_cases hid : r.id = id
      · subst hid
        exact ⟨_, .single (.start r.id execution h.checked.2.2.2.1), r, request?_of_mem hr, h.represents hc⟩
      · exact ⟨none, .refl _, (Table.lookup_insert_of_ne h.requests hid).trans htracks⟩
    | some b, ⟨q, hq, hb⟩ =>
      obtain ⟨hmem, hid⟩ := Table.lookup_eq_some hq
      exact ⟨some b, .refl _, q, hid ▸ request?_of_mem (hold hmem), h.represents_other hmem hb⟩

end Created

/-- Binding a key advances the tables. -/
theorem insertKey_advances (hc : Coherent db) {workspace request : Uuid} {key hash : String}
    (h : insertKey db workspace key request hash = .ok db') : Advances now db db' := by
  obtain ⟨keys, -, hreturn⟩ := bind_eq_ok.mp h
  cases hreturn
  exact hc.advances_congr rfl rfl rfl rfl rfl

/-- Opening a membership advances the tables. -/
theorem openMembership_advances (hc : Coherent db) {watchlist security quote id : Uuid}
    (h : openMembership db now watchlist security quote id = .ok db') : Advances now db db' := by
  obtain ⟨memberships, -, hreturn⟩ := bind_eq_ok.mp h
  cases hreturn
  exact hc.advances_congr rfl rfl rfl rfl rfl

/-- Making the request of an enqueue advances the tables. -/
theorem enqueueNew_advances (hc : Coherent db) {workspace request : Uuid} {a : EnqueueArguments}
    {options : RequestOptions} {hash : String} {ids : FreshIds}
    (h : enqueueNew db now workspace a options hash ids = .ok (db', request)) : Advances now db db' := by
  unfold enqueueNew at h
  split at h
  · split at h
    · simp only [joinMembership, bind_eq_ok] at h
      obtain ⟨_, -, _, -, _, -, db₁, hkey, hreturn⟩ := h
      cases hreturn
      exact insertKey_advances hc hkey
    · simp only [bind_eq_ok] at h
      obtain ⟨db₁, hopen, db₂, hcreate, hreturn⟩ := h
      cases hreturn
      have hopened : Advances now db db₁ := openMembership_advances hc hopen
      exact hopened.trans ((createRequest_eq_ok hcreate).1.advances hopened.1)
  · simp only [bind_eq_ok] at h
    obtain ⟨db₁, hcreate, hreturn⟩ := h
    cases hreturn
    exact (createRequest_eq_ok hcreate).1.advances hc

/-- An enqueue advances the tables. -/
theorem workflowEnqueue_advances (hc : Coherent db) {digest : RequestParameters → String} {registry : Registry}
    {a : EnqueueArguments} {ids : FreshIds} {result : Option RequestResult}
    (h : workflowEnqueue digest registry db now a ids = .ok (db', result)) : Advances now db db' := by
  simp only [workflowEnqueue, bind_eq_ok] at h
  obtain ⟨workspace, -, options, -, h⟩ := h
  split at h
  · simp only [bind_eq_ok] at h
    obtain ⟨_, -, hreturn⟩ := h
    cases hreturn
    exact hc.advances_self
  · simp only [bind_eq_ok] at h
    obtain ⟨_, -, ⟨db₁, request⟩, hnew, hreturn⟩ := h
    cases hreturn
    exact enqueueNew_advances hc hnew

/-- Removing a membership advances the tables. -/
theorem workflowRemoveMembership_advances (hc : Coherent db) {membership : Uuid} {result : Bool}
    (h : workflowRemoveMembership db now membership = .ok (db', result)) : Advances now db db' := by
  simp only [workflowRemoveMembership, bind_eq_ok] at h
  obtain ⟨m, -, _, -, memberships, -, hreturn⟩ := h
  cases hreturn
  exact hc.advances_congr rfl rfl rfl rfl rfl

/-- Making a workspace advances the tables. -/
theorem workflowCreateWorkspace_advances (hc : Coherent db) {workspace watchlist : Uuid}
    (h : workflowCreateWorkspace db workspace watchlist = .ok db') : Advances now db db' := by
  simp only [workflowCreateWorkspace, bind_eq_ok] at h
  obtain ⟨workspaces, -, watchlists, -, hreturn⟩ := h
  cases hreturn
  exact hc.advances_congr rfl rfl rfl rfl rfl

/-- A filing monitor enqueue advances the tables. -/
theorem workflowEnqueueMonitor_advances (hc : Coherent db) {digest : RequestParameters → String}
    {a : MonitorArguments} {request execution : Uuid} {result : Option RequestResult}
    (h : workflowEnqueueMonitor digest db now a request execution = .ok (db', result)) : Advances now db db' := by
  simp only [workflowEnqueueMonitor, bind_eq_ok] at h
  obtain ⟨_, -, _, -, h⟩ := h
  split at h
  · simp only [bind_eq_ok] at h
    obtain ⟨_, -, hreturn⟩ := h
    cases hreturn
    exact hc.advances_self
  · simp only [bind_eq_ok] at h
    obtain ⟨_, -, _, -, db₁, hcreate, hreturn⟩ := h
    cases hreturn
    exact (createRequest_eq_ok hcreate).1.advances hc

/-- Completing the result stage of a filing monitor advances the tables. -/
theorem workflowCompleteMonitor_advances (hc : Coherent db) {lease : Lease} {stage : Uuid} {result : MonitorResult}
    {evidenced seedApproved done : Bool}
    (h : workflowCompleteMonitor db now lease stage result evidenced seedApproved = .ok (db', done)) :
    Advances now db db' := by
  simp only [workflowCompleteMonitor, ingestionLockedStage, bind_eq_ok] at h
  obtain ⟨⟨e, s⟩, ⟨_, hlease, _, -, _, -, hlocked⟩, request, -, plan, -, _, -, _, -, _, -, db₁, hclose, db₂,
    hupdate, db₃, hevent, hreturn⟩ := h
  cases hlocked
  cases hreturn
  obtain ⟨r, a, expires, hheld, rfl⟩ := hc.held hlease
  obtain ⟨stages, hstages, rfl⟩ := closeStages_eq_ok hclose
  obtain ⟨executions, hexecutions, rfl⟩ := updateExecution_eq_ok hupdate
  obtain ⟨events, hdb', hnumbered⟩ := workflowEvent_eq_ok hevent
  have heffect : Effect db db' r.id a.last.id (fun e => { e with currentStage := none }) id [] stages.rows := by
    subst hdb'
    exact ⟨rfl, (List.append_nil _).symm ▸ hexecutions, by simp, rfl, hnumbered, rfl, rfl, rfl, rfl⟩
  apply advances_note hc hheld heffect (fun _ => ⟨rfl, rfl, rfl⟩) (fun _ => rfl) (fun _ => rfl) (fun _ => rfl)
  intro s hs hne
  rw [hstages] at hs
  exact (mem_ended hs).resolve_right (fun hx => hne hx)

end EquityEval.Workflow
