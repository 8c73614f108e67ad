import EquityEval.Workflow.Monitor
import EquityEval.Workflow.Lifecycle

/-!
# Coherent tables

The tables are coherent when they represent a life of every request, no stage attempt of an
execution that is not running is running, and the events of every execution are numbered. A write
to one request moves its life by a step and leaves the lives of the others alone.
-/

namespace EquityEval.Workflow

open Relational TransitionSystem

/-- The tables represent a request with its executions. -/
structure Represents (db : Database) (r : AnalysisRequest) (a : Analysis) : Prop where
  control : db.requestState? r.id = some a.control
  executions : db.executionsOf r.id = a.past ++ [a.last]
  maxAttempts : r.options.maxAttempts = a.maxAttempts

/-- What the tables represent of a request, if there is one with the identifier. -/
def Tracks (db : Database) (id : Uuid) : Option Analysis → Prop
  | none => db.request? id = none
  | some a => ∃ r, db.request? id = some r ∧ Represents db r a

/-- The events of every execution are numbered from one on. -/
def Numbered (db : Database) : Prop := ∀ x, Consecutive ((db.eventsOf x).map (·.eventSequence))

/-- What holds of the tables between two calls. -/
structure Coherent (db : Database) : Prop where
  represented : ∀ r ∈ db.requests.rows, ∃ a, Represents db r a
  controls : ∀ c ∈ db.requestStates.rows, ∃ r ∈ db.requests.rows, r.id = c.requestId
  executions : ∀ e ∈ db.executions.rows, ∃ r ∈ db.requests.rows, r.id = e.requestId
  stages : ∀ s ∈ db.stages.rows, ∃ e ∈ db.executions.rows, e.id = s.executionId ∧
    (s.Running → e.state.isRunning = true)
  completed : ∀ c ∈ db.requestStates.rows, c.terminalOutcome = some .completed →
    ∀ s ∈ db.stages.rows, s.executionId = c.currentExecutionId → s.Completed
  numbered : Numbered db

/-- Every request lives on from one state of the tables to another. -/
def Lives (now : Instant) (db db' : Database) : Prop :=
  ∀ id analysis, Tracks db id analysis →
    ∃ analysis', lifeSystem.Run ⟨now, analysis⟩ ⟨now, analysis'⟩ ∧ Tracks db' id analysis'

/-- The tables stay coherent and every request lives on. -/
def Advances (now : Instant) (db db' : Database) : Prop := Coherent db' ∧ Lives now db db'

/-- Lives go on in sequence. -/
theorem Lives.trans {now : Instant} {db db' db'' : Database} (h : Lives now db db') (h' : Lives now db' db'') :
    Lives now db db'' := by
  intro id analysis htracks
  obtain ⟨analysis', hrun, htracks'⟩ := h id analysis htracks
  obtain ⟨analysis'', hrun', htracks''⟩ := h' id analysis' htracks'
  exact ⟨analysis'', hrun.trans hrun', htracks''⟩

/-- Tables advance in sequence. -/
theorem Advances.trans {now : Instant} {db db' db'' : Database} (h : Advances now db db')
    (h' : Advances now db' db'') : Advances now db db'' := ⟨h'.1, h.2.trans h'.2⟩

/-- Coherent tables that do not change advance. -/
theorem Coherent.advances_self {now : Instant} {db : Database} (h : Coherent db) : Advances now db db :=
  ⟨h, fun _ analysis htracks => ⟨analysis, .refl _, htracks⟩⟩

/-- Lifting a life of one request out of the tables. -/
theorem Coherent.tracks {db : Database} (h : Coherent db) (id : Uuid) : ∃ analysis, Tracks db id analysis := by
  cases hr : db.request? id with
  | none => exact ⟨none, hr⟩
  | some r =>
    obtain ⟨a, ha⟩ := h.represented r (Table.lookup_eq_some hr).1
    exact ⟨some a, r, hr, ha⟩

/-! ### Rows and identifiers -/

variable {db db' : Database}

/-- The execution with the identifier of a row is that row. -/
theorem execution?_of_mem {e : Execution} (h : e ∈ db.executions.rows) : db.execution? e.id = some e :=
  Table.lookup_of_mem db.executions.valid.1 h

/-- The request with the identifier of a row is that row. -/
theorem request?_of_mem {r : AnalysisRequest} (h : r ∈ db.requests.rows) : db.request? r.id = some r :=
  Table.lookup_of_mem db.requests.valid.1 h

/-- The state of the request of a row is that row. -/
theorem requestState?_of_mem {c : RequestState} (h : c ∈ db.requestStates.rows) :
    db.requestState? c.requestId = some c :=
  Table.lookup_of_mem db.requestStates.valid.1 h

/-- Executions of requests with different identifiers are different. -/
theorem execution_id_ne {e e' : Execution} (h : e ∈ db.executions.rows) (h' : e' ∈ db.executions.rows)
    (hne : e.requestId ≠ e'.requestId) : e.id ≠ e'.id := by
  intro heq
  have hfound := execution?_of_mem h
  rw [heq, execution?_of_mem h'] at hfound
  exact hne (by rw [Option.some.inj hfound])

namespace Represents

variable {r : AnalysisRequest} {a : Analysis}

/-- The state of the request belongs to it. -/
theorem requestId_eq (h : Represents db r a) : a.control.requestId = r.id :=
  (Table.lookup_eq_some h.control).2

/-- The represented executions are rows of the request. -/
theorem mem_executions (h : Represents db r a) {e : Execution} (he : e ∈ a.past ++ [a.last]) :
    e ∈ db.executions.rows ∧ e.requestId = r.id := by
  rw [← h.executions] at he
  simpa [Database.executionsOf] using he

/-- The current execution is a row of the request. -/
theorem mem_last (h : Represents db r a) : a.last ∈ db.executions.rows ∧ a.last.requestId = r.id :=
  h.mem_executions (by simp)

/-- The current execution is found by the identifier in the state of the request. -/
theorem execution?_last (h : Represents db r a) : db.execution? a.control.currentExecutionId = some a.last := by
  rw [a.current]
  exact execution?_of_mem h.mem_last.1

/-- Earlier executions have other identifiers than the current one. -/
theorem past_id_ne (h : Represents db r a) {e : Execution} (he : e ∈ a.past) : e.id ≠ a.last.id := by
  have hnodup : ((db.executionsOf r.id).map Execution.id).Nodup :=
    db.executions.valid.1.sublist (List.filter_sublist.map _)
  rw [h.executions, List.map_append, List.map_singleton, List.nodup_append] at hnodup
  exact hnodup.2.2 _ (List.mem_map_of_mem he) _ (List.mem_singleton_self _)

/-- The tables represent one life of a request at most. -/
theorem unique {a' : Analysis} (h : Represents db r a) (h' : Represents db r a') : a = a' := by
  have hexecutions := List.append_inj' (h.executions.symm.trans h'.executions) rfl
  apply Analysis.ext
  · exact Option.some.inj (h.control.symm.trans h'.control)
  · exact hexecutions.1
  · exact List.singleton_inj.mp hexecutions.2
  · exact h.maxAttempts.symm.trans h'.maxAttempts

end Represents

/-! ### Events -/

/-- An appended event keeps the events numbered. -/
theorem Numbered.event {x : Uuid} {kind : EventKind} (h : Numbered db)
    (hevent : db'.events.rows = db.events.rows ++
      [⟨x, nextNumber ((db.eventsOf x).map (·.eventSequence)), kind⟩]) : Numbered db' := by
  intro y
  have hselect := Table.select_insert (·.executionId = y) hevent
  unfold Database.eventsOf
  rw [hselect]
  by_cases hy : x = y
  · subst hy
    simpa [Database.eventsOf] using (h x).append_next
  · simpa [hy, Database.eventsOf] using h y

/-! ### Writes to one request -/

/-- The writes of a call to one request: its current execution and its state are updated,
executions are added, and the stage attempts replaced. -/
structure Effect (db db' : Database) (request execution : Uuid) (f : Execution → Execution)
    (g : RequestState → RequestState) (added : List Execution) (stages : List StageAttempt) : Prop where
  requests : db'.requests = db.requests
  executions : db'.executions.rows =
    (db.executions.rows.map fun e => if e.id = execution then f e else e) ++ added
  requestStates : db'.requestStates.rows =
    db.requestStates.rows.map fun c => if c.requestId = request then g c else c
  stages : db'.stages.rows = stages
  numbered : Numbered db → Numbered db'
  memberships : db'.memberships = db.memberships
  keys : db'.keys = db.keys
  workspaces : db'.workspaces = db.workspaces
  watchlists : db'.watchlists = db.watchlists

namespace Effect

variable {request execution : Uuid} {f : Execution → Execution} {g : RequestState → RequestState}
  {added : List Execution} {stages : List StageAttempt}

/-- The state of a request after the writes. -/
theorem requestState? (h : Effect db db' request execution f g added stages)
    (hg : ∀ c, (g c).requestId = c.requestId) (id : Uuid) :
    db'.requestState? id = (db.requestState? id).map fun c => if c.requestId = request then g c else c :=
  Table.lookup_update h.requestStates hg id

/-- The executions of a request after the writes. -/
theorem executionsOf (h : Effect db db' request execution f g added stages)
    (hf : ∀ e, (f e).requestId = e.requestId) (hadded : ∀ e ∈ added, e.requestId = request) (id : Uuid) :
    db'.executionsOf id = ((db.executionsOf id).map fun e => if e.id = execution then f e else e) ++
      if request = id then added else [] := by
  have hcongr : ((fun e : Execution => decide (e.requestId = id)) ∘
      fun e => if e.id = execution then f e else e) = fun e => decide (e.requestId = id) := by
    funext e
    by_cases he : e.id = execution <;> simp [he, hf]
  unfold Database.executionsOf Table.select
  rw [h.executions, List.filter_append, List.filter_map, hcongr]
  congr 1
  by_cases hid : request = id
  · simp only [hid, if_true, List.filter_eq_self, decide_eq_true_eq]
    intro e he
    rw [hadded e he, hid]
  · simp only [hid, if_false, List.filter_eq_nil_iff, decide_eq_true_eq]
    intro e he heq
    exact hid (by rw [← heq, hadded e he])

/-- The written request is represented by its updated executions and state. -/
theorem represents {r : AnalysisRequest} {a a' : Analysis} (h : Effect db db' r.id a.last.id f g added stages)
    (hrep : Represents db r a) (hf : ∀ e, (f e).requestId = e.requestId) (hg : ∀ c, (g c).requestId = c.requestId)
    (hadded : ∀ e ∈ added, e.requestId = r.id) (hcontrol : a'.control = g a.control)
    (hexecutions : a'.past ++ [a'.last] = a.past ++ f a.last :: added) (hmax : a'.maxAttempts = a.maxAttempts) :
    Represents db' r a' where
  control := by
    rw [h.requestState? hg, hrep.control, hcontrol]
    simp [hrep.requestId_eq]
  executions := by
    have hpast : (a.past.map fun e => if e.id = a.last.id then f e else e) = a.past := by
      conv_rhs => rw [← List.map_id a.past]
      exact List.map_congr_left fun e he => if_neg (hrep.past_id_ne he)
    rw [h.executionsOf hf hadded, hrep.executions, hexecutions]
    simp [hpast]
  maxAttempts := by rw [hmax, hrep.maxAttempts]

/-- Another request is represented as before. -/
theorem represents_other {r q : AnalysisRequest} {b : Analysis} (h : Effect db db' r.id execution f g added stages)
    (hrep : Represents db q b) (hne : q.id ≠ r.id) (hother : ∀ e ∈ db.executionsOf q.id, e.id ≠ execution)
    (hf : ∀ e, (f e).requestId = e.requestId) (hg : ∀ c, (g c).requestId = c.requestId)
    (hadded : ∀ e ∈ added, e.requestId = r.id) : Represents db' q b where
  control := by
    rw [h.requestState? hg, hrep.control]
    simp [hrep.requestId_eq, hne]
  executions := by
    have hsame : ((db.executionsOf q.id).map fun e => if e.id = execution then f e else e) =
        db.executionsOf q.id := by
      conv_rhs => rw [← List.map_id (db.executionsOf q.id)]
      exact List.map_congr_left fun e he => if_neg (hother e he)
    rw [h.executionsOf hf hadded, hsame, hrep.executions, if_neg (Ne.symm hne), List.append_nil]
  maxAttempts := hrep.maxAttempts

section Advances

variable {now : Instant} {r : AnalysisRequest} {a a' : Analysis}

/-- An execution of another request is not the current one of the written request. -/
theorem other_id_ne {q : AnalysisRequest} (hrep : Represents db r a) (hne : q.id ≠ r.id) :
    ∀ e ∈ db.executionsOf q.id, e.id ≠ a.last.id := by
  intro e he
  obtain ⟨hmem, hrequest⟩ := (Table.mem_select _).mp he
  obtain ⟨hlast, hlastRequest⟩ := hrep.mem_last
  exact execution_id_ne hmem hlast (by rw [hrequest, hlastRequest]; exact hne)

/-- Writes that step the life of one request keep the tables coherent and every request alive. -/
theorem advances (h : Effect db db' r.id a.last.id f g added stages) (hc : Coherent db)
    (hr : r ∈ db.requests.rows) (hrep : Represents db r a) (hrep' : Represents db' r a')
    (hf : ∀ e, SameExecution e (f e)) (hg : ∀ c, (g c).requestId = c.requestId)
    (hadded : ∀ e ∈ added, e.requestId = r.id) (hstep : Life.Step ⟨now, some a⟩ () ⟨now, some a'⟩)
    (hkeep : ∀ s ∈ stages, s.executionId ≠ a.last.id → s ∈ db.stages.rows)
    (hrunning : ∀ s ∈ stages, s.executionId = a.last.id → s.Running → (f a.last).state.isRunning = true)
    (hcompleted : a'.control.terminalOutcome = some .completed →
      a'.control.currentExecutionId = a.last.id ∧ ∀ s ∈ stages, s.executionId = a.last.id → s.Completed) :
    Advances now db db' := by
  have hother : ∀ q ∈ db.requests.rows, q.id ≠ r.id → ∀ b, Represents db q b → Represents db' q b :=
    fun q _ hne b hb => h.represents_other hb hne (other_id_ne hrep hne) (fun e => (hf e).requestId) hg hadded
  have hmem : ∀ e ∈ db.executions.rows, (if e.id = a.last.id then f e else e) ∈ db'.executions.rows := by
    intro e he
    rw [h.executions]
    exact List.mem_append.mpr (Or.inl (List.mem_map_of_mem he))
  constructor
  · constructor
    case represented =>
      intro q hq
      rw [h.requests] at hq
      by_cases hne : q.id = r.id
      · have hqr : q = r := List.inj_on_of_nodup_map db.requests.valid.1 hq hr hne
        exact hqr ▸ ⟨a', hrep'⟩
      · obtain ⟨b, hb⟩ := hc.represented q hq
        exact ⟨b, hother q hq hne b hb⟩
    case controls =>
      intro c' hc'
      rw [h.requestStates] at hc'
      obtain ⟨c, hmemc, rfl⟩ := List.mem_map.mp hc'
      obtain ⟨q, hq, hqc⟩ := hc.controls c hmemc
      refine ⟨q, by rw [h.requests]; exact hq, hqc.trans ?_⟩
      split
      · exact (hg c).symm
      · rfl
    case executions =>
      intro e' he'
      rw [h.executions] at he'
      rcases List.mem_append.mp he' with hold | hnew
      · obtain ⟨e, hmeme, rfl⟩ := List.mem_map.mp hold
        obtain ⟨q, hq, hqe⟩ := hc.executions e hmeme
        refine ⟨q, by rw [h.requests]; exact hq, hqe.trans ?_⟩
        split
        · exact (hf e).requestId.symm
        · rfl
      · exact ⟨r, by rw [h.requests]; exact hr, (hadded e' hnew).symm⟩
    case stages =>
      intro s hs
      rw [h.stages] at hs
      by_cases hx : s.executionId = a.last.id
      · have hlast := hmem a.last hrep.mem_last.1
        rw [if_pos rfl] at hlast
        exact ⟨f a.last, hlast, by rw [(hf _).id, hx], hrunning s hs hx⟩
      · obtain ⟨e, hmeme, hes, hrun⟩ := hc.stages s (hkeep s hs hx)
        have hkept := hmem e hmeme
        rw [if_neg (by rw [hes]; exact hx)] at hkept
        exact ⟨e, hkept, hes, hrun⟩
    case completed =>
      intro c' hc' hdone s hs hsc
      rw [h.stages] at hs
      rw [h.requestStates] at hc'
      obtain ⟨c, hmemc, rfl⟩ := List.mem_map.mp hc'
      by_cases hcr : c.requestId = r.id
      · have hcontrol : (if c.requestId = r.id then g c else c) = a'.control := by
          have hfound := h.requestState? hg r.id
          rw [hrep'.control, ← hcr, requestState?_of_mem hmemc] at hfound
          rw [if_pos hcr]
          simpa using hfound.symm
        rw [hcontrol] at hdone hsc
        obtain ⟨hcurrent, hall⟩ := hcompleted hdone
        exact hall s hs (hsc.trans hcurrent)
      · rw [if_neg hcr] at hdone hsc
        obtain ⟨q, hq, hqc⟩ := hc.controls c hmemc
        obtain ⟨b, hb⟩ := hc.represented q hq
        have hcb : c = b.control := by
          have hfound := requestState?_of_mem hmemc
          rw [← hqc, hb.control] at hfound
          exact (Option.some.inj hfound).symm
        have hne : s.executionId ≠ a.last.id := by
          rw [hsc, hcb, b.current]
          exact other_id_ne hrep (by rw [hqc]; exact hcr) _ (by rw [hb.executions]; simp)
        exact hc.completed c hmemc hdone s (hkeep s hs hne) hsc
    case numbered => exact h.numbered hc.numbered
  · intro id analysis htracks
    match analysis, htracks with
    | none, htracks =>
      refine ⟨none, .refl _, ?_⟩
      change db'.request? id = none
      unfold Database.request?
      rw [h.requests]
      exact htracks
    | some b, ⟨q, hq, hb⟩ =>
      have hq' : db'.request? id = some q := by
        unfold Database.request?
        rw [h.requests]
        exact hq
      by_cases hne : q.id = r.id
      · have hqr : q = r := List.inj_on_of_nodup_map db.requests.valid.1 (Table.lookup_eq_some hq).1 hr hne
        subst hqr
        rw [hb.unique hrep]
        exact ⟨some a', .single hstep, q, hq', hrep'⟩
      · exact ⟨some b, .refl _, q, hq', hother q (Table.lookup_eq_some hq).1 hne b hb⟩

end Advances

end Effect

end EquityEval.Workflow
