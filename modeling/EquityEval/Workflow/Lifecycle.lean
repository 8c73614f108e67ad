import EquityEval.Fencing.Lease
import EquityEval.Workflow.Leases
import Mathlib.Data.Int.Order.Basic

/-!
# The life of one request

A request has one current execution at a time; the earlier ones failed. While the request is not
settled its current execution is queued or running, and it ends with the outcome of the request.
This abstract model keeps those facts as fields, so that no step can lose them, and it is an item
of work of the fenced leases.
-/

namespace EquityEval.Workflow

open Relational TransitionSystem

/-- The execution is queued or running and its cancellation was not requested. -/
abbrev Execution.Unfinished (e : Execution) : Prop := e.state.isOpen = true ∧ e.cancellationRequestedAt = none

/-- A request with its executions; the last one is current. -/
@[ext]
structure Analysis where
  control : RequestState
  past : List Execution
  last : Execution
  maxAttempts : ℤ
  current : control.currentExecutionId = last.id
  numbered : Consecutive ((past ++ [last]).map (·.attemptNo))
  within : last.attemptNo ≤ maxAttempts
  superseded : ∀ e ∈ past, e.state = .ended .failed ∧ e.finishedAt ≠ none
  settled : ∀ outcome ∈ control.terminalOutcome, last.state = .ended outcome ∧ last.finishedAt ≠ none
  unsettled : control.terminalOutcome = none → last.Unfinished
  owned : ∀ e ∈ past ++ [last], e.requestId = control.requestId

/-- An execution that keeps its identity. -/
structure SameExecution (e e' : Execution) : Prop where
  id : e'.id = e.id
  requestId : e'.requestId = e.requestId
  attemptNo : e'.attemptNo = e.attemptNo

namespace Analysis

/-- The number of the current execution is the number of executions. -/
theorem attemptNo_last (a : Analysis) : a.last.attemptNo = a.past.length + 1 := by
  have h := a.numbered
  unfold Consecutive at h
  rw [List.map_append, List.length_append, List.length_map, List.map_singleton, List.length_singleton,
    List.range'_1_concat] at h
  have := (List.append_inj' h rfl).2
  simp only [List.cons.injEq] at this
  omega

/-- A request is first queued. -/
def start (request execution : Uuid) (now : Instant) (maxAttempts : ℤ) (h : 1 ≤ maxAttempts) : Analysis where
  control := { requestId := request, currentExecutionId := execution, attemptEpoch := 1 }
  past := []
  last := { id := execution, requestId := request, attemptNo := 1, state := .queued, availableAt := now }
  maxAttempts := maxAttempts
  current := rfl
  numbered := rfl
  within := by simpa using h
  superseded := by simp
  settled := by simp
  unsettled _ := ⟨rfl, rfl⟩
  owned := by simp

/-- The current execution changes while the request stays unsettled. -/
def work (a : Analysis) (e : Execution) (hsame : SameExecution a.last e) (hopen : a.control.terminalOutcome = none)
    (hunfinished : e.Unfinished) : Analysis where
  control := a.control
  past := a.past
  last := e
  maxAttempts := a.maxAttempts
  current := by rw [hsame.id]; exact a.current
  numbered := by simpa [hsame.attemptNo] using a.numbered
  within := by rw [hsame.attemptNo]; exact a.within
  superseded := a.superseded
  settled := by simp [hopen]
  unsettled _ := hunfinished
  owned := by
    intro e' he'
    rcases List.mem_append.mp he' with hpast | hlast
    · exact a.owned e' (List.mem_append.mpr (Or.inl hpast))
    · rw [List.mem_singleton.mp hlast, hsame.requestId]
      exact a.owned a.last (by simp)

/-- The current execution fails and another one follows it. -/
def supersede (a : Analysis) (e : Execution) (hsame : SameExecution a.last e) (hfailed : e.state = .ended .failed)
    (hfinished : e.finishedAt ≠ none) (following : Uuid) (available : Instant)
    (hleft : a.last.attemptNo < a.maxAttempts) (hopen : a.control.terminalOutcome = none) : Analysis where
  control := { a.control with currentExecutionId := following, attemptEpoch := a.control.attemptEpoch + 1 }
  past := a.past ++ [e]
  last :=
    { id := following, requestId := a.control.requestId, attemptNo := a.last.attemptNo + 1, state := .queued,
      availableAt := available }
  maxAttempts := a.maxAttempts
  current := rfl
  numbered := by
    have h := a.numbered
    have hnext := h.append_next
    rw [h.nextNumber_eq] at hnext
    simpa [hsame.attemptNo, a.attemptNo_last] using hnext
  within := by push_cast; omega
  superseded := by
    intro e' he'
    rcases List.mem_append.mp he' with hpast | hlast
    · exact a.superseded e' hpast
    · rw [List.mem_singleton.mp hlast]
      exact ⟨hfailed, hfinished⟩
  settled := by simp [hopen]
  unsettled _ := ⟨rfl, rfl⟩
  owned := by
    intro e' he'
    simp only [List.mem_append, List.mem_singleton] at he'
    rcases he' with (hpast | rfl) | rfl
    · exact a.owned e' (List.mem_append.mpr (Or.inl hpast))
    · rw [hsame.requestId]
      exact a.owned a.last (by simp)
    · rfl

/-- The current execution ends, and the request with it. -/
def settle (a : Analysis) (e : Execution) (outcome : Outcome) (hsame : SameExecution a.last e)
    (hended : e.state = .ended outcome) (hfinished : e.finishedAt ≠ none) (epoch : ℕ) : Analysis where
  control := { a.control with terminalOutcome := some outcome, attemptEpoch := epoch }
  past := a.past
  last := e
  maxAttempts := a.maxAttempts
  current := by rw [hsame.id]; exact a.current
  numbered := by simpa [hsame.attemptNo] using a.numbered
  within := by rw [hsame.attemptNo]; exact a.within
  superseded := a.superseded
  settled := by
    intro o ho
    cases ho
    exact ⟨hended, hfinished⟩
  unsettled h := by cases h
  owned := by
    intro e' he'
    rcases List.mem_append.mp he' with hpast | hlast
    · exact a.owned e' (List.mem_append.mpr (Or.inl hpast))
    · rw [List.mem_singleton.mp hlast, hsame.requestId]
      exact a.owned a.last (by simp)

end Analysis

/-! ### The life as a system -/

/-- The clock and the request, once it is there. -/
structure Life where
  now : Instant
  analysis : Option Analysis

/-- One step in the life of a request. -/
inductive Life.Step : Life → Unit → Life → Prop where
  | pass {now later : Instant} {analysis : Option Analysis} (h : now ≤ later) :
      Life.Step ⟨now, analysis⟩ () ⟨later, analysis⟩
  | start {now : Instant} (request execution : Uuid) {maxAttempts : ℤ} (h : 1 ≤ maxAttempts) :
      Life.Step ⟨now, none⟩ () ⟨now, some (.start request execution now maxAttempts h)⟩
  | note {now : Instant} {a : Analysis} {e : Execution} (hsame : SameExecution a.last e)
      (hopen : a.control.terminalOutcome = none) (hunfinished : e.Unfinished) (hkeep : e.state = a.last.state)
      (htoken : e.fencingToken = a.last.fencingToken) :
      Life.Step ⟨now, some a⟩ () ⟨now, some (a.work e hsame hopen hunfinished)⟩
  | claim {now : Instant} {a : Analysis} {e : Execution} (hsame : SameExecution a.last e)
      (hopen : a.control.terminalOutcome = none) (hunfinished : e.Unfinished) (hqueued : a.last.state = .queued)
      {worker : String} {expires : Instant} (hrunning : e.state = .running worker expires) :
      Life.Step ⟨now, some a⟩ () ⟨now, some (a.work e hsame hopen hunfinished)⟩
  | renew {now : Instant} {a : Analysis} {e : Execution} (hsame : SameExecution a.last e)
      (hopen : a.control.terminalOutcome = none) (hunfinished : e.Unfinished) {worker : String}
      {expires later : Instant} (hheld : a.last.state = .running worker expires) (hlive : now < expires)
      (hrunning : e.state = .running worker later) (htoken : e.fencingToken = a.last.fencingToken) :
      Life.Step ⟨now, some a⟩ () ⟨now, some (a.work e hsame hopen hunfinished)⟩
  | supersede {now : Instant} {a : Analysis} {e : Execution} (hsame : SameExecution a.last e)
      (hfailed : e.state = .ended .failed) (hfinished : e.finishedAt ≠ none) (following : Uuid) (available : Instant)
      (hleft : a.last.attemptNo < a.maxAttempts) (hopen : a.control.terminalOutcome = none) :
      Life.Step ⟨now, some a⟩ ()
        ⟨now, some (a.supersede e hsame hfailed hfinished following available hleft hopen)⟩
  | settle {now : Instant} {a : Analysis} {e : Execution} {outcome : Outcome} (hsame : SameExecution a.last e)
      (hended : e.state = .ended outcome) (hfinished : e.finishedAt ≠ none) {epoch : ℕ}
      (hopen : a.control.terminalOutcome = none) (hepoch : a.control.attemptEpoch ≤ epoch) :
      Life.Step ⟨now, some a⟩ () ⟨now, some (a.settle e outcome hsame hended hfinished epoch)⟩

/-- The life of a request begins without it. -/
def lifeSystem : System Life Unit where
  initial s := s.analysis = none
  step := Life.Step

/-- What never goes back in the life of a request. -/
structure Life.Progress (s s' : Life) : Prop where
  now : s.now ≤ s'.now
  kept : ∀ a ∈ s.analysis, ∃ a' ∈ s'.analysis, a.control.attemptEpoch ≤ a'.control.attemptEpoch ∧
    ∀ outcome ∈ a.control.terminalOutcome, a'.control.terminalOutcome = some outcome

instance : IsPreorder Life Life.Progress where
  refl s := ⟨le_refl _, fun a ha => ⟨a, ha, le_refl _, fun _ ho => ho⟩⟩
  trans s s' s'' h h' := by
    refine ⟨h.now.trans h'.now, ?_⟩
    intro a ha
    obtain ⟨a', ha', hepoch, houtcome⟩ := h.kept a ha
    obtain ⟨a'', ha'', hepoch', houtcome'⟩ := h'.kept a' ha'
    exact ⟨a'', ha'', hepoch.trans hepoch', fun o ho => houtcome' o (houtcome o ho)⟩

/-- A step makes progress. -/
theorem Life.Step.progress {s s' : Life} (h : Life.Step s () s') : s.Progress s' := by
  cases h with
  | pass hlater => exact ⟨hlater, fun a ha => ⟨a, ha, le_refl _, fun _ ho => ho⟩⟩
  | start => exact ⟨le_refl _, by simp⟩
  | note hsame hopen hunfinished =>
    refine ⟨le_refl _, fun a ha => ?_⟩
    cases ha
    exact ⟨_, rfl, le_refl _, fun _ ho => ho⟩
  | claim hsame hopen hunfinished =>
    refine ⟨le_refl _, fun a ha => ?_⟩
    cases ha
    exact ⟨_, rfl, le_refl _, fun _ ho => ho⟩
  | renew hsame hopen hunfinished =>
    refine ⟨le_refl _, fun a ha => ?_⟩
    cases ha
    exact ⟨_, rfl, le_refl _, fun _ ho => ho⟩
  | supersede hsame hfailed hfinished following available hleft hopen =>
    refine ⟨le_refl _, fun a ha => ?_⟩
    cases ha
    exact ⟨_, rfl, Nat.le_succ _, fun _ ho => ho⟩
  | settle hsame hended hfinished hopen hepoch =>
    refine ⟨le_refl _, fun a ha => ?_⟩
    cases ha
    exact ⟨_, rfl, hepoch, by simp [hopen]⟩

/-- A run makes progress: the epoch never decreases and a terminal outcome never changes. -/
theorem Life.progress_of_run {s s' : Life} (h : lifeSystem.Run s s') : s.Progress s' :=
  h.follows (R := Life.Progress) fun _ _ _ hstep => Life.Step.progress hstep

/-! ### The life as fenced work -/

/-- Who holds an execution: its identifier, its fencing token and the worker. -/
abbrev Holder : Type := Uuid × ℕ × String

/-- A request as a fenced item of work. -/
def Analysis.item (a : Analysis) : Fencing.Item Holder Instant where
  epoch := a.control.attemptEpoch
  phase :=
    match a.control.terminalOutcome, a.last.state with
    | none, .running worker expires => .held (a.last.id, a.last.fencingToken, worker) expires
    | none, _ => .waiting
    | some _, _ => .closed

/-- The fenced item of a life. -/
def Life.fenced (s : Life) : Fencing.State Holder Instant := ⟨s.now, s.analysis.map Analysis.item⟩

/-- The item of an unsettled request whose execution is not running. -/
theorem Analysis.item_waiting {a : Analysis} (hopen : a.control.terminalOutcome = none)
    (hstate : a.last.state.isRunning = false) : a.item = ⟨a.control.attemptEpoch, .waiting⟩ := by
  unfold Analysis.item
  cases hs : a.last.state <;> simp_all [ExecutionState.isRunning]

/-- The item of an unsettled request whose execution is running. -/
theorem Analysis.item_held {a : Analysis} (hopen : a.control.terminalOutcome = none) {worker : String}
    {expires : Instant} (hstate : a.last.state = .running worker expires) :
    a.item = ⟨a.control.attemptEpoch, .held (a.last.id, a.last.fencingToken, worker) expires⟩ := by
  simp [Analysis.item, hopen, hstate]

/-- The item of a settled request. -/
theorem Analysis.item_closed {a : Analysis} {outcome : Outcome} (h : a.control.terminalOutcome = some outcome) :
    a.item = ⟨a.control.attemptEpoch, .closed⟩ := by
  simp [Analysis.item, h]

/-- The item of an unsettled request is not closed. -/
theorem Analysis.item_phase_ne {a : Analysis} (hopen : a.control.terminalOutcome = none) :
    a.item.phase ≠ .closed := by
  cases hs : a.last.state <;> simp [Analysis.item, hopen, hs]

/-- A step in the life of a request is a run of the fenced item. -/
theorem Life.Step.fenced {s s' : Life} (h : Life.Step s () s') :
    (Fencing.system Holder Instant).Run s.fenced s'.fenced := by
  cases h with
  | pass hlater => exact (Fencing.Step.pass hlater).run
  | @start now request execution maxAttempts h =>
    have hitem : (Analysis.start request execution now maxAttempts h).item = ⟨1, .waiting⟩ :=
      Analysis.item_waiting rfl rfl
    change (Fencing.system Holder Instant).Run ⟨now, none⟩ ⟨now, some (Analysis.item _)⟩
    rw [hitem]
    exact (Fencing.Step.appear 1).run
  | @note now a e hsame hopen hunfinished hkeep htoken =>
    have hitem : (a.work e hsame hopen hunfinished).item = a.item := by
      simp [Analysis.item, Analysis.work, hkeep, htoken, hsame.id]
    simpa [Life.fenced, hitem] using System.Run.refl _
  | @claim now a e hsame hopen hunfinished hqueued worker expires hrunning =>
    have hwaiting : a.item = ⟨a.control.attemptEpoch, .waiting⟩ :=
      Analysis.item_waiting hopen (by rw [hqueued]; rfl)
    have hheld : (a.work e hsame hopen hunfinished).item =
        ⟨a.control.attemptEpoch, .held (e.id, e.fencingToken, worker) expires⟩ :=
      Analysis.item_held (a := a.work e hsame hopen hunfinished) hopen hrunning
    change (Fencing.system Holder Instant).Run ⟨now, some a.item⟩ ⟨now, some (Analysis.item _)⟩
    rw [hwaiting, hheld]
    exact (Fencing.Step.grant _ expires).run
  | @renew now a e hsame hopen hunfinished worker expires later hheld hlive hrunning htoken =>
    have hbefore : a.item = ⟨a.control.attemptEpoch, .held (a.last.id, a.last.fencingToken, worker) expires⟩ :=
      Analysis.item_held hopen hheld
    have hafter : (a.work e hsame hopen hunfinished).item =
        ⟨a.control.attemptEpoch, .held (e.id, e.fencingToken, worker) later⟩ :=
      Analysis.item_held (a := a.work e hsame hopen hunfinished) hopen hrunning
    change (Fencing.system Holder Instant).Run ⟨now, some a.item⟩ ⟨now, some (Analysis.item _)⟩
    rw [hbefore, hafter, hsame.id, htoken]
    exact (Fencing.Step.renew later hlive).run
  | @supersede now a e hsame hfailed hfinished following available hleft hopen =>
    have hafter : (a.supersede e hsame hfailed hfinished following available hleft hopen).item =
        ⟨a.control.attemptEpoch + 1, .waiting⟩ :=
      Analysis.item_waiting hopen rfl
    change (Fencing.system Holder Instant).Run ⟨now, some a.item⟩ ⟨now, some (Analysis.item _)⟩
    rw [hafter]
    exact (Fencing.Step.supersede (Analysis.item_phase_ne hopen) (Nat.lt_succ_self _)).run
  | @settle now a e outcome hsame hended hfinished epoch hopen hepoch =>
    have hafter : (a.settle e outcome hsame hended hfinished epoch).item = ⟨epoch, .closed⟩ :=
      Analysis.item_closed rfl
    change (Fencing.system Holder Instant).Run ⟨now, some a.item⟩ ⟨now, some (Analysis.item _)⟩
    rw [hafter]
    exact (Fencing.Step.close hepoch).run

/-- A run in the life of a request is a run of the fenced item. -/
theorem Life.fenced_run {s s' : Life} (h : lifeSystem.Run s s') :
    (Fencing.system Holder Instant).Run s.fenced s'.fenced := by
  induction h with
  | refl => exact .refl _
  | step _ hstep ih => exact ih.trans (Life.Step.fenced hstep)

/-- The life of a request is a life of the fenced item. -/
theorem life_fenced :
    System.Simulation lifeSystem (Fencing.system Holder Instant) fun s t => s.fenced = t where
  initial s hs := ⟨s.fenced, by simp [Fencing.system, Life.fenced, show s.analysis = none from hs], rfl⟩
  step s _ s' t _ hst hstep := by
    subst hst
    exact ⟨s'.fenced, Life.Step.fenced hstep, rfl⟩

end EquityEval.Workflow
