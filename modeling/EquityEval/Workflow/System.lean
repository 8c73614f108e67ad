import EquityEval.Workflow.Effects

/-!
# The workflow as a transition system

The clock advances, the registry changes, and calls run one after the other. Row locks are held to
the end of a call, so each call is one step; a call that raises changes nothing. In every reachable
state the tables are coherent, and each request lives the life of the abstract model.
-/

namespace EquityEval.Workflow

open Relational TransitionSystem

/-- A call of a function of the workflow, with the identifiers that it generates. The rows that
other transactions hold locked and the answers of tables that are not modelled are arguments. -/
inductive Call where
  | createWorkspace (workspace watchlist : Uuid)
  | enqueue (arguments : EnqueueArguments) (ids : FreshIds)
  | enqueueMonitor (arguments : MonitorArguments) (request execution : Uuid)
  | removeMembership (membership : Uuid)
  | claim (locked : Uuid → Bool) (worker : String) (duration : ℤ) (following : Uuid)
  | claimBootstrap (request : Option Uuid) (locked : Uuid → Bool) (worker : String) (duration : ℤ) (following : Uuid)
  | claimMonitor (request : Option Uuid) (locked : Uuid → Bool) (worker : String) (duration : ℤ) (following : Uuid)
  | renew (lease : Lease) (duration : ℤ)
  | startStage (lease : Lease) (key : String) (stage : Uuid)
  | finishStage (lease : Lease) (stage : Uuid) (outcome : Option StageOutcome) (reason : Option String)
      (reused : List Uuid) (reusable : Uuid → Bool)
  | completeMonitor (lease : Lease) (stage : Uuid) (result : MonitorResult) (evidenced seedApproved : Bool)
  | finish (lease : Lease) (outcome : Option Outcome) (reason : Option String)
  | retry (lease : Lease) (error : Option String) (delay : ℤ) (following : Uuid)
  | cancel (request : Uuid)

/-- What a call returns. -/
inductive Answer where
  | done
  | flag (value : Bool)
  | identifier (value : Option Uuid)
  | request (value : Option RequestResult)
  | lease (value : Option (Lease × Instant))
deriving DecidableEq

/-- The lease that a call presents. -/
def Call.lease? : Call → Option Lease
  | .renew lease _ => some lease
  | .startStage lease _ _ => some lease
  | .finishStage lease _ _ _ _ _ => some lease
  | .completeMonitor lease _ _ _ _ => some lease
  | .finish lease _ _ => some lease
  | .retry lease _ _ _ => some lease
  | _ => none

/-- Run a call at one reading of the clock. -/
def perform (digest : RequestParameters → String) (registry : Registry) (db : Database) (now : Instant) (c : Call) :
    Except SqlError (Database × Answer) :=
  match c with
  | .createWorkspace workspace watchlist => do
    let db ← workflowCreateWorkspace db workspace watchlist
    return (db, .done)
  | .enqueue arguments ids => do
    let (db, result) ← workflowEnqueue digest registry db now arguments ids
    return (db, .request result)
  | .enqueueMonitor arguments request execution => do
    let (db, result) ← workflowEnqueueMonitor digest db now arguments request execution
    return (db, .request result)
  | .removeMembership membership => do
    let (db, result) ← workflowRemoveMembership db now membership
    return (db, .flag result)
  | .claim locked worker duration following => do
    let (db, result) ← workflowClaim db now locked worker duration following
    return (db, .lease result)
  | .claimBootstrap request locked worker duration following => do
    let (db, result) ← workflowClaimBootstrap db now request locked worker duration following
    return (db, .lease result)
  | .claimMonitor request locked worker duration following => do
    let (db, result) ← workflowClaimMonitor db now request locked worker duration following
    return (db, .lease result)
  | .renew lease duration => do
    let (db, result) ← workflowRenew db now lease duration
    return (db, .lease result)
  | .startStage lease key stage => do
    let (db, result) ← workflowStartStage db now lease key stage
    return (db, .identifier result)
  | .finishStage lease stage outcome reason reused reusable => do
    let (db, result) ← workflowFinishStage db now lease stage outcome reason reused reusable
    return (db, .flag result)
  | .completeMonitor lease stage result evidenced seedApproved => do
    let (db, result) ← workflowCompleteMonitor db now lease stage result evidenced seedApproved
    return (db, .flag result)
  | .finish lease outcome reason => do
    let (db, result) ← workflowFinish db now lease outcome reason
    return (db, .flag result)
  | .retry lease error delay following => do
    let (db, result) ← workflowRetry db now lease error delay following
    return (db, .identifier result)
  | .cancel request => do
    let (db, result) ← workflowCancel db now request
    return (db, .flag result)

/-- The clock, the registry and the tables. -/
structure State where
  now : Instant
  registry : Registry
  db : Database

/-- What happens in a step. -/
inductive Action where
  | advance (later : Instant)
  | register (registry : Registry)
  | call (c : Call)

/-- The state after a call; a call that raises leaves it as it was. -/
def State.after (digest : RequestParameters → String) (s : State) (c : Call) : State :=
  match perform digest s.registry s.db s.now c with
  | .ok (db, _) => { s with db }
  | .error _ => s

/-- The state after a call that returns. -/
theorem State.after_of_ok {digest : RequestParameters → String} {s : State} {c : Call} {db : Database}
    {answer : Answer} (h : perform digest s.registry s.db s.now c = .ok (db, answer)) :
    s.after digest c = { s with db } := by
  unfold State.after
  rw [h]

/-- The state after a call that raises. -/
theorem State.after_of_error {digest : RequestParameters → String} {s : State} {c : Call} {error : SqlError}
    (h : perform digest s.registry s.db s.now c = .error error) : s.after digest c = s := by
  unfold State.after
  rw [h]

/-- The workflow starts with empty tables. -/
def system (digest : RequestParameters → String) : System State Action where
  initial s := s.db = .empty
  step s action s' :=
    match action with
    | .advance later => s.now ≤ later ∧ s' = { s with now := later }
    | .register registry => s' = { s with registry }
    | .call c => s' = s.after digest c

variable {digest : RequestParameters → String}

/-- Every call that returns advances the tables. -/
theorem perform_advances {registry : Registry} {db db' : Database} {now : Instant} {c : Call} {answer : Answer}
    (hc : Coherent db) (h : perform digest registry db now c = .ok (db', answer)) : Advances now db db' := by
  cases c <;> obtain ⟨result, hcall, hreturn⟩ := bind_eq_ok.mp h <;> cases hreturn
  case createWorkspace => exact workflowCreateWorkspace_advances hc hcall
  case enqueue => exact workflowEnqueue_advances hc hcall
  case enqueueMonitor => exact workflowEnqueueMonitor_advances hc hcall
  case removeMembership => exact workflowRemoveMembership_advances hc hcall
  case claim => exact claimSelected_advances hc hcall
  case claimBootstrap => exact claimSelected_advances hc hcall
  case claimMonitor => exact claimSelected_advances hc hcall
  case renew => exact workflowRenew_advances hc hcall
  case startStage => exact workflowStartStage_advances hc hcall
  case finishStage => exact workflowFinishStage_advances hc hcall
  case completeMonitor => exact workflowCompleteMonitor_advances hc hcall
  case finish => exact workflowFinish_advances hc hcall
  case retry => exact workflowRetry_advances hc hcall
  case cancel => exact workflowCancel_advances hc hcall

/-- The state after a call has advanced tables and the same clock. -/
theorem State.after_advances {s : State} (c : Call) (hc : Coherent s.db) :
    Advances s.now s.db (s.after digest c).db ∧ (s.after digest c).now = s.now := by
  unfold State.after
  split
  case h_1 db answer hperform => exact ⟨perform_advances hc hperform, rfl⟩
  case h_2 => exact ⟨hc.advances_self, rfl⟩

/-- Empty tables are coherent. -/
theorem coherent_empty : Coherent .empty where
  represented r hr := by cases hr
  controls c hc := by cases hc
  executions e he := by cases he
  stages s hs := by cases hs
  completed c hc := by cases hc
  numbered x := consecutive_nil

/-- The tables of every reachable state are coherent. -/
theorem coherent_invariant : (system digest).Invariant fun s => Coherent s.db where
  initial s hs := by
    rw [show s.db = .empty from hs]
    exact coherent_empty
  step s action s' hc hstep := by
    cases action with
    | advance later =>
      rw [hstep.2]
      exact hc
    | register registry =>
      rw [show s' = { s with registry } from hstep]
      exact hc
    | call c =>
      rw [show s' = s.after digest c from hstep]
      exact (State.after_advances c hc).1.1

/-- The state and the life that the tables represent of one request. -/
def Follows (id : Uuid) (s : State) (life : Life) : Prop := life.now = s.now ∧ Tracks s.db id life.analysis

/-- Each request lives the life of the abstract model. -/
theorem simulation (id : Uuid) : System.Simulation (system digest) lifeSystem (Follows id) where
  initial s hs := by
    refine ⟨⟨s.now, none⟩, rfl, rfl, ?_⟩
    change s.db.request? id = none
    rw [show s.db = .empty from hs]
    rfl
  step s action s' life hreachable hfollows hstep := by
    obtain ⟨now, analysis⟩ := life
    obtain ⟨hnow, htracks⟩ := hfollows
    have hc := coherent_invariant.holds hreachable
    have hnow' : now = s.now := hnow
    cases action with
    | advance later =>
      rw [hstep.2]
      have hle : now ≤ later := by
        rw [hnow']
        exact hstep.1
      exact ⟨⟨later, analysis⟩, .single (.pass hle), rfl, htracks⟩
    | register registry =>
      rw [show s' = { s with registry } from hstep]
      exact ⟨⟨now, analysis⟩, .refl _, hnow, htracks⟩
    | call c =>
      rw [show s' = s.after digest c from hstep]
      have hafter : Advances s.now s.db (s.after digest c).db ∧ (s.after digest c).now = s.now :=
        State.after_advances c hc
      obtain ⟨hadvances, hclock⟩ := hafter
      obtain ⟨analysis', hrun, htracks'⟩ := hadvances.2 id analysis htracks
      exact ⟨⟨s.now, analysis'⟩, hnow' ▸ hrun, hclock.symm, htracks'⟩

/-- What a reachable state represents of a request lives on over every run. -/
theorem lives_on {s s' : State} (hs : (system digest).Reachable s) (hrun : (system digest).Run s s') {id : Uuid}
    {analysis : Option Analysis} (h : Tracks s.db id analysis) :
    ∃ analysis', lifeSystem.Run ⟨s.now, analysis⟩ ⟨s'.now, analysis'⟩ ∧ Tracks s'.db id analysis' := by
  obtain ⟨⟨now, analysis'⟩, hlife, hnow, htracks⟩ := (simulation id).run hs (t := ⟨s.now, analysis⟩) ⟨rfl, h⟩ hrun
  have hnow' : now = s'.now := hnow
  exact ⟨analysis', hnow' ▸ hlife, htracks⟩

/-- The state after calls that follow one another at once. -/
def State.afterAll (digest : RequestParameters → String) (s : State) (calls : List Call) : State :=
  calls.foldl (State.after digest) s

/-- Calls that follow one another are a run. -/
theorem run_afterAll (s : State) (calls : List Call) : (system digest).Run s (s.afterAll digest calls) := by
  induction calls generalizing s with
  | nil => exact .refl s
  | cons c calls ih =>
    have hstep : (system digest).step s (.call c) (s.after digest c) := rfl
    exact (System.Run.single hstep).trans (ih _)

/-- A call that presents a lease and returns has passed the check of the lease. -/
theorem perform_lease {registry : Registry} {db db' : Database} {now : Instant} {c : Call} {answer : Answer}
    {lease : Lease} (hlease : c.lease? = some lease) (h : perform digest registry db now c = .ok (db', answer)) :
    ∃ e, workflowLockedLease db now lease = .ok e := by
  cases c <;> cases hlease <;> obtain ⟨result, hcall, -⟩ := bind_eq_ok.mp h
  case renew =>
    simp only [workflowRenew, bind_eq_ok] at hcall
    obtain ⟨_, -, e, he, -⟩ := hcall
    exact ⟨e, he⟩
  case startStage =>
    obtain ⟨e, he, -⟩ := bind_eq_ok.mp hcall
    exact ⟨e, he⟩
  case finishStage =>
    obtain ⟨e, he, -⟩ := bind_eq_ok.mp hcall
    exact ⟨e, he⟩
  case completeMonitor =>
    obtain ⟨_, hstage, -⟩ := bind_eq_ok.mp hcall
    obtain ⟨e, he, -⟩ := bind_eq_ok.mp hstage
    exact ⟨e, he⟩
  case finish =>
    obtain ⟨e, he, -⟩ := bind_eq_ok.mp hcall
    exact ⟨e, he⟩
  case retry =>
    simp only [workflowRetry, bind_eq_ok] at hcall
    obtain ⟨_, -, _, -, e, he, -⟩ := hcall
    exact ⟨e, he⟩

/-! ### A sample -/

/-- A hash that only tells the greatest number of attempts. -/
def sampleDigest : RequestParameters → String
  | .listed _ _ _ _ _ _ options => toString options.maxAttempts
  | .monitor _ _ _ maxAttempts => toString maxAttempts

/-- Empty tables and one quote of one security. -/
def sampleStart : State where
  now := 0
  registry := { quotes := [(5, 4)], validity := [⟨5, 4, 0, none⟩], sources := [] }
  db := .empty

/-- An Add of the security to the watchlist of the sample. -/
def sampleAdd (key : String) : EnqueueArguments where
  workspace := none
  watchlist := some 2
  security := 4
  quote := 5
  key := key
  options := {}
  trigger := .watchlistAdd
  parent := none

/-- The sample after an Add that a worker claimed. -/
def sampleClaimed : State :=
  sampleStart.afterAll sampleDigest
    [.createWorkspace 1 2, .enqueue (sampleAdd "first") ⟨10, 11, 12⟩, .claim (fun _ => false) "worker" 60 13]

/-- The sample is reachable. -/
theorem sampleClaimed_reachable : (system sampleDigest).Reachable sampleClaimed :=
  (run_afterAll _ _).reachable (.initial rfl)

end EquityEval.Workflow
