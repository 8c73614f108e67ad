import EquityEval.Workflow.System

/-!
# Fenced exclusivity

A lease passes when `workflow_locked_lease` accepts it. In coherent tables a lease passes exactly
when the fenced item of its request accepts it, so one lease of a request passes at most, and a
lease that was lost stays lost. The execution of a superseded lease has ended or has outlived its
lease; neither is ever undone, and a call that presents such a lease changes nothing.
-/

namespace EquityEval.Workflow

open Relational TransitionSystem

/-- `workflow_locked_lease` accepts the lease. -/
def Passes (s : State) (lease : Lease) : Prop := ∃ e, workflowLockedLease s.db s.now lease = .ok e

/-- The lease as one of the fenced item of its request. -/
def Lease.fenced (lease : Lease) : Fencing.Lease Holder :=
  ⟨lease.epoch, (lease.executionId, lease.fencingToken, lease.workerId)⟩

/-- The execution has ended, or its lease has expired. -/
def Execution.Over (e : Execution) (now : Instant) : Prop :=
  match e.state with
  | .ended _ => True
  | .running _ expires => expires ≤ now
  | _ => False

/-- The execution of the lease was retried, reclaimed, cancelled or finished, or the lease expired. -/
def Superseded (s : State) (lease : Lease) : Prop :=
  ∃ e ∈ s.db.executions.rows, e.id = lease.executionId ∧ e.Over s.now

/-- The call gives the execution of a lease up. -/
def Call.Ends (lease : Lease) : Call → Prop
  | .finish presented _ _ => presented = lease
  | .retry presented _ _ _ => presented = lease
  | .cancel request => request = lease.requestId
  | _ => False

/-! ### Leases and the fenced item -/

section Fenced

variable {digest : RequestParameters → String} {s s' : State} {lease lease' : Lease} {analysis : Option Analysis}

/-- A lease passes exactly when the fenced item of its request accepts it. -/
theorem passes_iff_accepts (hc : Coherent s.db) (h : Tracks s.db lease.requestId analysis) :
    Passes s lease ↔ Fencing.Accepts (Life.fenced ⟨s.now, analysis⟩) lease.fenced := by
  constructor
  · intro hpasses
    obtain ⟨e, he⟩ := hpasses
    obtain ⟨r, a, expires, hheld, -⟩ := hc.held he
    have hfound : s.db.request? lease.requestId = some r := hheld.request ▸ request?_of_mem hheld.mem
    match analysis, h with
    | none, h => exact absurd (hfound.symm.trans h) (by simp)
    | some b, ⟨q, hq, hb⟩ =>
      have hqr : q = r := Option.some.inj (hq.symm.trans hfound)
      subst hqr
      have hba : b = a := hb.unique hheld.represents
      subst hba
      refine ⟨expires, ?_, hheld.live⟩
      change some b.item = _
      rw [Analysis.item_held hheld.unsettled hheld.running, hheld.epoch, hheld.execution, hheld.token]
      rfl
  · intro haccepts
    obtain ⟨expires, hitem, hlive⟩ := haccepts
    match analysis, h with
    | none, h => cases hitem
    | some a, ⟨r, hr, ha⟩ =>
      have hphase : a.item = ⟨lease.epoch, .held (lease.executionId, lease.fencingToken, lease.workerId) expires⟩ :=
        Option.some.inj hitem
      have hopen : a.control.terminalOutcome = none := by
        cases houtcome : a.control.terminalOutcome with
        | none => rfl
        | some outcome =>
          rw [Analysis.item_closed houtcome] at hphase
          simp at hphase
      cases hstate : a.last.state with
      | running worker expiry =>
        rw [Analysis.item_held hopen hstate] at hphase
        simp only [Fencing.Item.mk.injEq, Fencing.Phase.held.injEq, Prod.mk.injEq] at hphase
        obtain ⟨hepoch, ⟨hexecution, htoken, hworker⟩, hexpires⟩ := hphase
        subst hworker hexpires
        have hrequest : s.db.requestState? lease.requestId = some a.control := by
          rw [← (Table.lookup_eq_some hr).2]
          exact ha.control
        exact ⟨a.last, workflowLockedLease_eq_ok.mpr ⟨a.control, expiry, hrequest, hopen, a.current.trans hexecution,
          hepoch, ha.execution?_last, hstate, htoken, hlive, (a.unsettled hopen).2⟩⟩
      | _ =>
        rw [Analysis.item_waiting hopen (by rw [hstate]; rfl)] at hphase
        simp at hphase

/-- One lease of a request passes at most. -/
theorem Passes.unique (hc : Coherent s.db) (hrequest : lease.requestId = lease'.requestId) (h : Passes s lease)
    (h' : Passes s lease') : lease = lease' := by
  obtain ⟨analysis, htracks⟩ := hc.tracks lease.requestId
  have haccepts := (passes_iff_accepts hc htracks).mp h
  have haccepts' := (passes_iff_accepts hc (hrequest ▸ htracks)).mp h'
  have hfenced := Fencing.accepts_unique haccepts haccepts'
  cases lease
  cases lease'
  simp_all [Lease.fenced]

/-- A lease that passed and no longer does never passes again. -/
theorem Passes.lost {s'' : State} (hs : (system digest).Reachable s) (h : Passes s lease)
    (hrun : (system digest).Run s s') (hlost : ¬ Passes s' lease) (hrun' : (system digest).Run s' s'') :
    ¬ Passes s'' lease := by
  have hs' := hrun.reachable hs
  have hc := coherent_invariant.holds hs
  have hc' := coherent_invariant.holds hs'
  have hc'' := coherent_invariant.holds (hrun'.reachable hs')
  obtain ⟨analysis, htracks⟩ := hc.tracks lease.requestId
  obtain ⟨analysis', hlife, htracks'⟩ := lives_on hs hrun htracks
  obtain ⟨analysis'', hlife', htracks''⟩ := lives_on hs' hrun' htracks'
  have hfenced := Life.fenced_run hlife
  have hfenced' := Life.fenced_run hlife'
  rw [passes_iff_accepts hc htracks] at h
  rw [passes_iff_accepts hc' htracks'] at hlost
  rw [passes_iff_accepts hc'' htracks'']
  exact Fencing.never_accepted_again h hfenced hlost hfenced'

end Fenced

/-! ### Superseded leases -/

/-- An execution of the request has ended or outlived its lease. -/
def Life.Over (x : Uuid) (s : Life) : Prop :=
  ∃ a ∈ s.analysis, ∃ e ∈ a.past ++ [a.last], e.id = x ∧ e.Over s.now

/-- An execution that is over is not queued. -/
theorem Execution.Over.not_queued {e : Execution} {now : Instant} (h : e.Over now) : e.state ≠ .queued := by
  intro hqueued
  unfold Execution.Over at h
  rw [hqueued] at h
  exact h

/-- An execution that is over outlived the lease it had. -/
theorem Execution.Over.expired {e : Execution} {now expires : Instant} {worker : String} (h : e.Over now)
    (hrunning : e.state = .running worker expires) : expires ≤ now := by
  unfold Execution.Over at h
  rwa [hrunning] at h

/-- An execution that ended is over. -/
theorem Execution.over_of_ended {e : Execution} {now : Instant} {outcome : Outcome}
    (h : e.state = .ended outcome) : e.Over now := by
  unfold Execution.Over
  rw [h]
  trivial

/-- An execution that is over stays over as time passes. -/
theorem Execution.Over.later {e : Execution} {now later : Instant} (h : e.Over now) (hlater : now ≤ later) :
    e.Over later := by
  cases hs : e.state with
  | ended outcome => exact Execution.over_of_ended hs
  | running worker expires =>
    have := h.expired hs
    unfold Execution.Over
    rw [hs]
    exact this.trans hlater
  | queued => exact absurd hs h.not_queued
  | retryScheduled =>
    unfold Execution.Over at h
    rw [hs] at h
    exact h.elim

/-- What is over stays over when only the current execution changes and stays over if it was. -/
theorem Life.Over.work {x : Uuid} {now : Instant} {a a' : Analysis} (h : Life.Over x ⟨now, some a⟩)
    (hpast : ∀ e ∈ a.past, e ∈ a'.past ++ [a'.last])
    (hlast : a.last.id = x → a.last.Over now → ∃ e ∈ a'.past ++ [a'.last], e.id = x ∧ e.Over now) :
    Life.Over x ⟨now, some a'⟩ := by
  obtain ⟨b, hb, e, he, hid, hover⟩ := h
  cases hb
  refine ⟨a', rfl, ?_⟩
  rcases List.mem_append.mp he with hmem | hmem
  · exact ⟨e, hpast e hmem, hid, hover⟩
  · rw [List.mem_singleton.mp hmem] at hid hover
    exact hlast hid hover

/-- What is over stays over in every step. -/
theorem Life.Step.over {s s' : Life} {x : Uuid} (h : s.Over x) (hstep : Life.Step s () s') : s'.Over x := by
  cases hstep with
  | pass hlater =>
    obtain ⟨a, ha, e, he, hid, hover⟩ := h
    exact ⟨a, ha, e, he, hid, hover.later hlater⟩
  | start =>
    obtain ⟨a, ha, -⟩ := h
    cases ha
  | @note now a e hsame hopen hunfinished hkeep htoken =>
    refine Life.Over.work h (fun e he => List.mem_append.mpr (Or.inl he)) fun hid hover => ?_
    refine ⟨e, by simp [Analysis.work], hsame.id.trans hid, ?_⟩
    unfold Execution.Over
    rw [hkeep]
    exact hover
  | @claim now a e hsame hopen hunfinished hqueued worker expires hrunning =>
    exact Life.Over.work h (fun e he => List.mem_append.mpr (Or.inl he)) fun _ hover => absurd hqueued hover.not_queued
  | @renew now a e hsame hopen hunfinished worker expires later hheld hlive hrunning htoken =>
    exact Life.Over.work h (fun e he => List.mem_append.mpr (Or.inl he)) fun _ hover =>
      absurd (hover.expired hheld) (not_le.mpr hlive)
  | @supersede now a e hsame hfailed hfinished following available hleft hopen =>
    refine Life.Over.work h (fun e he => by simp [Analysis.supersede, he]) fun hid _ => ?_
    exact ⟨e, by simp [Analysis.supersede], hsame.id.trans hid, Execution.over_of_ended hfailed⟩
  | @settle now a e outcome hsame hended hfinished epoch hopen hepoch =>
    refine Life.Over.work h (fun e he => List.mem_append.mpr (Or.inl he)) fun hid _ => ?_
    exact ⟨e, by simp [Analysis.settle], hsame.id.trans hid, Execution.over_of_ended hended⟩

section Superseded

variable {digest : RequestParameters → String} {s s' : State} {lease : Lease}

/-- The execution of a superseded lease is over in the life of some request, and conversely. -/
theorem superseded_iff (hc : Coherent s.db) :
    Superseded s lease ↔ ∃ id analysis, Tracks s.db id analysis ∧ Life.Over lease.executionId ⟨s.now, analysis⟩ := by
  constructor
  · intro h
    obtain ⟨e, he, hid, hover⟩ := h
    obtain ⟨r, hr, hre⟩ := hc.executions e he
    obtain ⟨a, ha⟩ := hc.represented r hr
    refine ⟨r.id, some a, ⟨r, request?_of_mem hr, ha⟩, a, rfl, e, ?_, hid, hover⟩
    rw [← ha.executions]
    exact (Table.mem_select _).mpr ⟨he, hre.symm⟩
  · intro h
    obtain ⟨id, analysis, htracks, a, ha, e, he, hid, hover⟩ := h
    cases ha
    obtain ⟨r, -, hrep⟩ := htracks
    exact ⟨e, (hrep.mem_executions he).1, hid, hover⟩

/-- A superseded lease stays superseded. -/
theorem Superseded.run (hs : (system digest).Reachable s) (h : Superseded s lease)
    (hrun : (system digest).Run s s') : Superseded s' lease := by
  obtain ⟨id, analysis, htracks, hover⟩ := (superseded_iff (coherent_invariant.holds hs)).mp h
  obtain ⟨analysis', hlife, htracks'⟩ := lives_on hs hrun htracks
  have hover' := hlife.keeps (P := Life.Over lease.executionId) (fun _ _ _ h hstep => Life.Step.over h hstep) hover
  exact (superseded_iff (coherent_invariant.holds (hrun.reachable hs))).mpr ⟨id, analysis', htracks', hover'⟩

/-- A superseded lease does not pass. -/
theorem Superseded.not_passes (h : Superseded s lease) : ¬ Passes s lease := by
  intro hpasses
  obtain ⟨e, he⟩ := hpasses
  obtain ⟨c, expires, -, -, hcurrent, -, hexecution, hrunning, -, hlive, -⟩ := workflowLockedLease_eq_ok.mp he
  obtain ⟨e', he', hid, hover⟩ := h
  have hfound := execution?_of_mem he'
  rw [hid, ← hcurrent, hexecution] at hfound
  cases hfound
  exact absurd (hover.expired hrunning) (not_le.mpr hlive)

/-- A call that presents a lease that does not pass changes nothing. -/
theorem State.after_refused {c : Call} (hlease : c.lease? = some lease) (h : ¬ Passes s lease) :
    s.after digest c = s := by
  unfold State.after
  split
  case h_1 db answer hperform => exact absurd (perform_lease hlease hperform) h
  case h_2 => rfl

/-! ### Calls that supersede a lease -/

variable {db db' : Database} {now : Instant}

/-- An execution that an update ends is over. -/
theorem over_of_update {executions : List Execution} {e : Execution} {f : Execution → Execution} {outcome : Outcome}
    (hrows : ∀ e' ∈ db.executions.rows.map fun e' => if e'.id = e.id then f e' else e', e' ∈ executions)
    (he : e ∈ db.executions.rows) (hid : (f e).id = e.id) (hended : (f e).state = .ended outcome) :
    ∃ e' ∈ executions, e'.id = e.id ∧ e'.Over now := by
  have hmem := hrows (f e) (List.mem_map.mpr ⟨e, he, if_pos rfl⟩)
  exact ⟨f e, hmem, hid, Execution.over_of_ended hended⟩

/-- Finishing an execution ends it. -/
theorem workflowFinish_over {outcome : Option Outcome} {reason : Option String} {result : Bool} {e : Execution}
    (hlease : workflowLockedLease db now lease = .ok e)
    (h : workflowFinish db now lease outcome reason = .ok (db', result)) :
    ∃ e' ∈ db'.executions.rows, e'.id = e.id ∧ e'.Over now := by
  simp only [workflowFinish, bind_eq_ok] at h
  obtain ⟨found, hfound, outcome, -, _, -, _, -, _, -, _, -, _, -, db₁, hupdate, db₂, hcontrol, db₃, hevent,
    hreturn⟩ := h
  cases hreturn
  cases hlease.symm.trans hfound
  obtain ⟨executions, hexecutions, rfl⟩ := updateExecution_eq_ok hupdate
  obtain ⟨requestStates, -, rfl⟩ := updateRequestState_eq_ok hcontrol
  obtain ⟨events, rfl, -⟩ := workflowEvent_eq_ok hevent
  obtain ⟨c, expires, -, -, -, -, hexecution, -⟩ := workflowLockedLease_eq_ok.mp hlease
  exact over_of_update (by rw [hexecutions]; exact fun _ h => h) (Table.lookup_eq_some hexecution).1 rfl rfl

/-- Closing an execution for a retry ends it. -/
theorem workflowCloseRetry_over {error : Reason} {delay : ℤ} {following : Uuid} {next : Option Uuid} {e : Execution}
    (he : e ∈ db.executions.rows) (h : workflowCloseRetry db now e.id error delay following = .ok (db', next)) :
    ∃ e' ∈ db'.executions.rows, e'.id = e.id ∧ e'.Over now := by
  simp only [workflowCloseRetry, bind_eq_ok] at h
  obtain ⟨previous, -, request, -, db₁, hclose, db₂, hupdate, h⟩ := h
  obtain ⟨stages, -, rfl⟩ := closeStages_eq_ok hclose
  obtain ⟨executions, hexecutions, rfl⟩ := updateExecution_eq_ok hupdate
  split at h
  case isTrue =>
    simp only [bind_eq_ok] at h
    obtain ⟨db₃, hstate, db₄, hevent, hreturn⟩ := h
    cases hreturn
    obtain ⟨requestStates, -, rfl⟩ := updateRequestState_eq_ok hstate
    obtain ⟨events, rfl, -⟩ := workflowEvent_eq_ok hevent
    exact over_of_update (by rw [hexecutions]; exact fun _ h => h) he rfl rfl
  case isFalse =>
    simp only [bind_eq_ok] at h
    obtain ⟨db₃, hinsert, db₄, hstate, db₅, hevent, db₆, hevent', hreturn⟩ := h
    cases hreturn
    obtain ⟨executions', hexecutions', rfl⟩ := insertExecution_eq_ok hinsert
    obtain ⟨requestStates, -, rfl⟩ := updateRequestState_eq_ok hstate
    obtain ⟨events, rfl, -⟩ := workflowEvent_eq_ok hevent
    obtain ⟨events', rfl, -⟩ := workflowEvent_eq_ok hevent'
    refine over_of_update (f := fun e => { e with
      state := .ended .failed, finishedAt := some now, errorCode := some error.val, currentStage := none }) ?_ he rfl rfl
    intro e' he'
    rw [hexecutions', hexecutions]
    exact List.mem_append.mpr (Or.inl he')

/-- Cancelling a request ends the execution whose lease passes. -/
theorem workflowCancel_over {result : Bool} {e : Execution} (hlease : workflowLockedLease db now lease = .ok e)
    (h : workflowCancel db now lease.requestId = .ok (db', result)) :
    ∃ e' ∈ db'.executions.rows, e'.id = e.id ∧ e'.Over now := by
  obtain ⟨c, expires, hcontrol, hopen, -, -, hexecution, -⟩ := workflowLockedLease_eq_ok.mp hlease
  obtain ⟨he, hid⟩ := Table.lookup_eq_some hexecution
  simp only [workflowCancel, bind_eq_ok, orRaise_eq_ok] at h
  obtain ⟨c', hcontrol', h⟩ := h
  cases hcontrol.symm.trans hcontrol'
  rw [if_neg (not_not.mpr hopen)] at h
  simp only [bind_eq_ok] at h
  obtain ⟨db₁, hclose, db₂, hupdate, db₃, hstate, db₄, hevent, hreturn⟩ := h
  cases hreturn
  obtain ⟨stages, -, rfl⟩ := closeStages_eq_ok hclose
  obtain ⟨executions, hexecutions, rfl⟩ := updateExecution_eq_ok hupdate
  obtain ⟨requestStates, -, rfl⟩ := updateRequestState_eq_ok hstate
  obtain ⟨events, rfl, -⟩ := workflowEvent_eq_ok hevent
  rw [← hid] at hexecutions
  exact over_of_update (by rw [hexecutions]; exact fun _ h => h) he rfl rfl

/-- A call that gives an execution up and returns supersedes the lease that passed. -/
theorem Call.Ends.supersedes {c : Call} {answer : Answer} (hends : c.Ends lease) (hpasses : Passes s lease)
    (h : perform digest s.registry s.db s.now c = .ok (db', answer)) : Superseded (s.after digest c) lease := by
  obtain ⟨e, hlease⟩ := hpasses
  obtain ⟨c', expires, -, -, hcurrent, -, hexecution, -⟩ := workflowLockedLease_eq_ok.mp hlease
  obtain ⟨he, hid⟩ := Table.lookup_eq_some hexecution
  have hover : ∃ e' ∈ db'.executions.rows, e'.id = e.id ∧ e'.Over s.now := by
    cases c with
    | finish presented outcome reason =>
      obtain rfl : presented = lease := hends
      obtain ⟨result, hcall, hreturn⟩ := bind_eq_ok.mp h
      cases hreturn
      exact workflowFinish_over hlease hcall
    | retry presented error delay following =>
      obtain rfl : presented = lease := hends
      obtain ⟨result, hcall, hreturn⟩ := bind_eq_ok.mp h
      cases hreturn
      simp only [workflowRetry, bind_eq_ok] at hcall
      obtain ⟨_, -, error, -, found, hfound, hclose⟩ := hcall
      cases hlease.symm.trans hfound
      exact workflowCloseRetry_over he hclose
    | cancel request =>
      obtain rfl : request = lease.requestId := hends
      obtain ⟨result, hcall, hreturn⟩ := bind_eq_ok.mp h
      cases hreturn
      exact workflowCancel_over hlease hcall
    | _ => exact hends.elim
  rw [State.after_of_ok h]
  obtain ⟨e', he', hid', hover'⟩ := hover
  exact ⟨e', he', hid'.trans (hid.trans hcurrent), hover'⟩

end Superseded

/-! ### Exclusivity -/

/-- In every reachable state one lease of a request passes at most; a lease that is superseded, or
that passed and no longer does, is refused in every later state, where a call that presents it
changes nothing; and a call that gives an execution up supersedes its lease. -/
theorem fenced_exclusivity {digest : RequestParameters → String} {s : State} (hs : (system digest).Reachable s) :
    (∀ lease lease', lease.requestId = lease'.requestId → Passes s lease → Passes s lease' → lease = lease') ∧
    (∀ lease s', Superseded s lease → (system digest).Run s s' → ¬ Passes s' lease ∧
      ∀ c : Call, c.lease? = some lease → s'.after digest c = s') ∧
    (∀ lease s' s'', Passes s lease → (system digest).Run s s' → ¬ Passes s' lease → (system digest).Run s' s'' →
      ¬ Passes s'' lease ∧ ∀ c : Call, c.lease? = some lease → s''.after digest c = s'') ∧
    ∀ lease (c : Call) db answer, Passes s lease → c.Ends lease →
      perform digest s.registry s.db s.now c = .ok (db, answer) → Superseded (s.after digest c) lease := by
  refine ⟨?_, ?_, ?_, ?_⟩
  · intro lease lease' hrequest h h'
    exact h.unique (coherent_invariant.holds hs) hrequest h'
  · intro lease s' h hrun
    have hlost := (h.run hs hrun).not_passes
    exact ⟨hlost, fun c hlease => State.after_refused hlease hlost⟩
  · intro lease s' s'' h hrun hlost hrun'
    have hnever := h.lost hs hrun hlost hrun'
    exact ⟨hnever, fun c hlease => State.after_refused hlease hnever⟩
  · intro lease c db answer hpasses hends h
    exact hends.supersedes hpasses h

/-- The lease of the sample. -/
def sampleLease : Lease := ⟨11, 12, 1, 1, "worker"⟩

/-- The lease of the sample passes until its holder gives the execution up; renewing it then changes nothing. -/
theorem fenced_exclusivity_sample :
    Passes sampleClaimed sampleLease ∧
      let given := sampleClaimed.after sampleDigest (.retry sampleLease (some "timeout") 0 14)
      ¬ Passes given sampleLease ∧ given.after sampleDigest (.renew sampleLease 60) = given := by
  have hpasses : Passes sampleClaimed sampleLease :=
    ⟨{ id := 12, requestId := 11, attemptNo := 1, state := .running "worker" 60000000, availableAt := 0,
       fencingToken := 1, startedAt := some 0 }, by decide⟩
  have hgiven : Superseded (sampleClaimed.after sampleDigest (.retry sampleLease (some "timeout") 0 14)) sampleLease :=
    (fenced_exclusivity sampleClaimed_reachable).2.2.2 sampleLease (.retry sampleLease (some "timeout") 0 14) _
      (.identifier (some 14)) hpasses rfl rfl
  have hstep : (system sampleDigest).step sampleClaimed (.call (.retry sampleLease (some "timeout") 0 14)) _ := rfl
  obtain ⟨hlost, hunchanged⟩ := (fenced_exclusivity (sampleClaimed_reachable.step hstep)).2.1 _ _ hgiven (.refl _)
  exact ⟨hpasses, hlost, hunchanged (.renew sampleLease 60) rfl⟩

end EquityEval.Workflow
