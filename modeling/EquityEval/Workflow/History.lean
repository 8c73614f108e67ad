import EquityEval.Workflow.System

/-!
# The history of executions

What the tables say of the executions of a request in every reachable state: their numbers, which
of them is current, how the earlier ones ended and how the outcome of the request agrees with the
last one. Over a run the epoch of a request never decreases and its outcome is never changed.
-/

namespace EquityEval.Workflow

open Relational TransitionSystem

/-- The executions of a request are in order; the last one is current and decides its outcome. -/
structure InOrder (db : Database) (r : AnalysisRequest) (c : RequestState) (past : List Execution)
    (last : Execution) : Prop where
  executions : db.executionsOf r.id = past ++ [last]
  numbered : (db.executionsOf r.id).map (·.attemptNo) = List.range' 1 (past.length + 1)
  within : (past.length : ℤ) + 1 ≤ r.options.maxAttempts
  current : c.currentExecutionId = last.id
  superseded : ∀ e ∈ past, e.state = .ended .failed ∧ e.finishedAt ≠ none
  unsettled : c.terminalOutcome = none → last.state = .queued ∨ ∃ owner expires, last.state = .running owner expires
  settled : ∀ outcome ∈ c.terminalOutcome, last.state = .ended outcome ∧ last.finishedAt ≠ none
  completed : c.terminalOutcome = some .completed → ∀ s ∈ db.stagesOf last.id, s.Completed

/-- What the tables represent of a request is in order. -/
theorem Represents.inOrder {db : Database} {r : AnalysisRequest} {a : Analysis} (hc : Coherent db)
    (h : Represents db r a) : InOrder db r a.control a.past a.last where
  executions := h.executions
  numbered := by
    have hnumbered := a.numbered
    unfold Consecutive at hnumbered
    rw [h.executions, hnumbered]
    simp
  within := by
    rw [h.maxAttempts]
    have hlast := a.attemptNo_last
    have hwithin := a.within
    rw [hlast] at hwithin
    exact_mod_cast hwithin
  current := a.current
  superseded := a.superseded
  unsettled hopen := by
    have hunfinished := (a.unsettled hopen).1
    cases hs : a.last.state with
    | queued => exact Or.inl rfl
    | running owner expires => exact Or.inr ⟨owner, expires, rfl⟩
    | retryScheduled =>
      rw [hs] at hunfinished
      cases hunfinished
    | ended outcome =>
      rw [hs] at hunfinished
      cases hunfinished
  settled := a.settled
  completed hdone s hs := by
    obtain ⟨hmem, hexecution⟩ := (Table.mem_select _).mp hs
    have hcontrol := (Table.lookup_eq_some h.control).1
    exact hc.completed a.control hcontrol hdone s hmem (hexecution.trans a.current.symm)

/-- A request that is there keeps its identifier, its epoch does not decrease and its outcome stays. -/
theorem requestState_progress {digest : RequestParameters → String} {s s' : State}
    (hs : (system digest).Reachable s) (hrun : (system digest).Run s s') {c : RequestState}
    (h : c ∈ s.db.requestStates.rows) : ∃ c' ∈ s'.db.requestStates.rows, c'.requestId = c.requestId ∧
      c.attemptEpoch ≤ c'.attemptEpoch ∧ ∀ outcome ∈ c.terminalOutcome, c'.terminalOutcome = some outcome := by
  have hc := coherent_invariant.holds hs
  obtain ⟨r, hr, hrc⟩ := hc.controls c h
  obtain ⟨a, ha⟩ := hc.represented r hr
  have hcontrol : a.control = c := by
    have hfound := ha.control
    rw [hrc, requestState?_of_mem h] at hfound
    exact (Option.some.inj hfound).symm
  subst hcontrol
  have htracks : Tracks s.db r.id (some a) := ⟨r, request?_of_mem hr, ha⟩
  obtain ⟨analysis', hlife, htracks'⟩ := lives_on hs hrun htracks
  obtain ⟨a', ha', hepoch, houtcome⟩ := (Life.progress_of_run hlife).kept a rfl
  cases ha'
  obtain ⟨r', hr', hrep'⟩ := htracks'
  obtain ⟨hmem', -⟩ := Table.lookup_eq_some hrep'.control
  have hid : a'.control.requestId = a.control.requestId := by
    rw [hrep'.requestId_eq, ha.requestId_eq, (Table.lookup_eq_some hr').2]
  exact ⟨a'.control, hmem', hid, hepoch, houtcome⟩

/-- In every reachable state every request has its state and its executions in order, stage attempts
run only in running executions, and the events of every execution are numbered; over every run the
epoch of a request never decreases and its outcome never changes. -/
theorem execution_history {digest : RequestParameters → String} {s : State} (hs : (system digest).Reachable s) :
    (∀ r ∈ s.db.requests.rows, ∃ c past last, s.db.requestState? r.id = some c ∧ InOrder s.db r c past last) ∧
    (∀ stage ∈ s.db.stages.rows, stage.Running →
      ∃ e owner expires, s.db.execution? stage.executionId = some e ∧ e.state = .running owner expires) ∧
    (∀ x, (s.db.eventsOf x).map (·.eventSequence) = List.range' 1 (s.db.eventsOf x).length) ∧
    ∀ s', (system digest).Run s s' → ∀ c ∈ s.db.requestStates.rows, ∃ c' ∈ s'.db.requestStates.rows,
      c'.requestId = c.requestId ∧ c.attemptEpoch ≤ c'.attemptEpoch ∧
        ∀ outcome ∈ c.terminalOutcome, c'.terminalOutcome = some outcome := by
  have hc := coherent_invariant.holds hs
  refine ⟨?_, ?_, ?_, ?_⟩
  · intro r hr
    obtain ⟨a, ha⟩ := hc.represented r hr
    exact ⟨a.control, a.past, a.last, ha.control, ha.inOrder hc⟩
  · intro stage hstage hrunning
    obtain ⟨e, he, hid, hstate⟩ := hc.stages stage hstage
    have hfound : s.db.execution? stage.executionId = some e := hid ▸ execution?_of_mem he
    cases hs : e.state with
    | running owner expires => exact ⟨e, owner, expires, hfound, hs⟩
    | _ =>
      have hrun := hstate hrunning
      rw [hs] at hrun
      cases hrun
  · intro x
    have hnumbered := hc.numbered x
    unfold Consecutive at hnumbered
    rwa [List.length_map] at hnumbered
  · intro s' hrun c hmem
    exact requestState_progress hs hrun hmem

/-- The sample, given up by its worker, has a failed execution and a queued one that is current. -/
theorem execution_history_sample :
    let given := sampleClaimed.after sampleDigest (.retry ⟨11, 12, 1, 1, "worker"⟩ (some "timeout") 0 14)
    given.db.executions.rows.map (fun e => (e.id, e.attemptNo, e.state)) =
        [(12, 1, .ended .failed), (14, 2, .queued)] ∧
      ∀ r ∈ given.db.requests.rows, ∃ c past last, given.db.requestState? r.id = some c ∧
        InOrder given.db r c past last := by
  have hstep : (system sampleDigest).step sampleClaimed
      (.call (.retry ⟨11, 12, 1, 1, "worker"⟩ (some "timeout") 0 14)) _ := rfl
  exact ⟨by decide, (execution_history (sampleClaimed_reachable.step hstep)).1⟩

end EquityEval.Workflow
