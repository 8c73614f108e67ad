import EquityEval.Workflow.System

/-!
# What calls do to requests, keys and memberships

Every call that returns changes these tables in one of a few ways: it leaves them alone, makes a
request of its own, adds a stock with its request, joins a key to the request of an active
membership, removes a stock, or makes a workspace. The invariants of these tables follow from the
list of changes.
-/

namespace EquityEval.Workflow

open Relational TransitionSystem

/-- The tables that say what was asked for are the same. -/
structure SameIntent (db db' : Database) : Prop where
  workspaces : db'.workspaces = db.workspaces
  watchlists : db'.watchlists = db.watchlists
  memberships : db'.memberships = db.memberships
  requests : db'.requests = db.requests
  keys : db'.keys = db.keys

namespace SameIntent

variable {db db' db'' : Database} {now : Instant}

/-- Nothing changed. -/
theorem refl (db : Database) : SameIntent db db := ⟨rfl, rfl, rfl, rfl, rfl⟩

/-- The tables stay the same in sequence. -/
theorem trans (h : SameIntent db db') (h' : SameIntent db' db'') : SameIntent db db'' :=
  ⟨h'.workspaces.trans h.workspaces, h'.watchlists.trans h.watchlists, h'.memberships.trans h.memberships,
    h'.requests.trans h.requests, h'.keys.trans h.keys⟩

/-- Updating an execution. -/
theorem updateExecution {x : Uuid} {f : Execution → Execution} (h : db.updateExecution x f = .ok db') :
    SameIntent db db' := by
  obtain ⟨_, -, rfl⟩ := updateExecution_eq_ok h
  exact ⟨rfl, rfl, rfl, rfl, rfl⟩

/-- Updating the state of a request. -/
theorem updateRequestState {r : Uuid} {g : RequestState → RequestState} (h : db.updateRequestState r g = .ok db') :
    SameIntent db db' := by
  obtain ⟨_, -, rfl⟩ := updateRequestState_eq_ok h
  exact ⟨rfl, rfl, rfl, rfl, rfl⟩

/-- Closing stage attempts. -/
theorem closeStages {condition : StageAttempt → Prop} [DecidablePred condition] {f : StageAttempt → StageAttempt}
    (h : db.closeStages condition f = .ok db') : SameIntent db db' := by
  obtain ⟨_, -, rfl⟩ := closeStages_eq_ok h
  exact ⟨rfl, rfl, rfl, rfl, rfl⟩

/-- Inserting an execution. -/
theorem insertExecution {e : Execution} (h : db.insertExecution e = .ok db') : SameIntent db db' := by
  obtain ⟨_, -, rfl⟩ := insertExecution_eq_ok h
  exact ⟨rfl, rfl, rfl, rfl, rfl⟩

/-- Appending an event. -/
theorem workflowEvent {x : Uuid} {kind : EventKind} (h : db.workflowEvent x kind = .ok db') : SameIntent db db' := by
  obtain ⟨_, rfl, -⟩ := workflowEvent_eq_ok h
  exact ⟨rfl, rfl, rfl, rfl, rfl⟩

/-- Closing an execution for a retry. -/
theorem workflowCloseRetry {x following : Uuid} {error : Reason} {delay : ℤ} {next : Option Uuid}
    (h : workflowCloseRetry db now x error delay following = .ok (db', next)) : SameIntent db db' := by
  simp only [Workflow.workflowCloseRetry, bind_eq_ok] at h
  obtain ⟨_, -, _, -, db₁, hclose, db₂, hupdate, h⟩ := h
  have hended := (closeStages hclose).trans (updateExecution hupdate)
  split at h
  · simp only [bind_eq_ok] at h
    obtain ⟨db₃, hstate, db₄, hevent, hreturn⟩ := h
    cases hreturn
    exact hended.trans ((updateRequestState hstate).trans (workflowEvent hevent))
  · simp only [bind_eq_ok] at h
    obtain ⟨db₃, hinsert, db₄, hstate, db₅, hevent, db₆, hevent', hreturn⟩ := h
    cases hreturn
    exact hended.trans ((insertExecution hinsert).trans ((updateRequestState hstate).trans
      ((workflowEvent hevent).trans (workflowEvent hevent'))))

/-- Giving an execution to a worker. -/
theorem claimExecution {x : Uuid} {worker : String} {duration : ℤ} {result : Option (Lease × Instant)}
    (h : claimExecution db now x worker duration = .ok (db', result)) : SameIntent db db' := by
  simp only [Workflow.claimExecution, bind_eq_ok] at h
  obtain ⟨db₁, hupdate, db₂, hevent, hreturn⟩ := h
  cases hreturn
  exact (updateExecution hupdate).trans (workflowEvent hevent)

/-- The rounds of a claim. -/
theorem claimLoop {selects : AnalysisRequest → Bool} {locked : Uuid → Bool} {worker : String} {duration : ℤ}
    {following : Uuid} {result : Option (Lease × Instant)} (rounds : ℕ)
    (h : claimLoop now selects locked worker duration following rounds db = .ok (db', result)) :
    SameIntent db db' := by
  induction rounds generalizing db with
  | zero =>
    cases h
    exact refl _
  | succ rounds ih =>
    unfold Workflow.claimLoop at h
    split at h
    case h_1 =>
      cases h
      exact refl _
    case h_2 =>
      split at h
      case isTrue =>
        obtain ⟨⟨db₁, next⟩, hclose, h⟩ := bind_eq_ok.mp h
        cases next with
        | none => exact (workflowCloseRetry hclose).trans (ih h)
        | some next => exact (workflowCloseRetry hclose).trans (claimExecution h)
      case isFalse => exact claimExecution h

/-- A claim. -/
theorem claimSelected {selects : AnalysisRequest → Bool} {locked : Uuid → Bool} {worker : String} {duration : ℤ}
    {following : Uuid} {result : Option (Lease × Instant)}
    (h : claimSelected db now selects locked worker duration following = .ok (db', result)) : SameIntent db db' := by
  obtain ⟨_, -, hloop⟩ := bind_eq_ok.mp h
  exact claimLoop _ hloop

/-- Renewing a lease. -/
theorem workflowRenew {lease : Lease} {duration : ℤ} {result : Option (Lease × Instant)}
    (h : workflowRenew db now lease duration = .ok (db', result)) : SameIntent db db' := by
  simp only [Workflow.workflowRenew, bind_eq_ok] at h
  obtain ⟨_, -, _, -, db₁, hupdate, db₂, hevent, hreturn⟩ := h
  cases hreturn
  exact (updateExecution hupdate).trans (workflowEvent hevent)

/-- Starting a stage attempt. -/
theorem workflowStartStage {lease : Lease} {key : String} {stage result : Uuid}
    (h : workflowStartStage db now lease key stage = .ok (db', result)) : SameIntent db db' := by
  simp only [Workflow.workflowStartStage, bind_eq_ok] at h
  obtain ⟨_, -, _, -, stages, -, db₁, hupdate, db₂, hevent, hreturn⟩ := h
  cases hreturn
  have hinsert : SameIntent db { db with stages } := ⟨rfl, rfl, rfl, rfl, rfl⟩
  exact hinsert.trans ((updateExecution hupdate).trans (workflowEvent hevent))

/-- Ending a stage attempt. -/
theorem workflowFinishStage {lease : Lease} {stage : Uuid} {outcome : Option StageOutcome} {reason : Option String}
    {reused : List Uuid} {reusable : Uuid → Bool} {result : Bool}
    (h : workflowFinishStage db now lease stage outcome reason reused reusable = .ok (db', result)) :
    SameIntent db db' := by
  simp only [Workflow.workflowFinishStage, bind_eq_ok] at h
  obtain ⟨_, -, _, -, h⟩ := h
  split at h
  case isFalse => cases h
  case isTrue =>
    simp only [bind_eq_ok] at h
    obtain ⟨_, -, _, -, _, -, db₁, hclose, db₂, hupdate, db₃, hevent, hreturn⟩ := h
    cases hreturn
    exact (closeStages hclose).trans ((updateExecution hupdate).trans (workflowEvent hevent))

/-- Completing the result stage of a filing monitor. -/
theorem workflowCompleteMonitor {lease : Lease} {stage : Uuid} {result : MonitorResult}
    {evidenced seedApproved done : Bool}
    (h : workflowCompleteMonitor db now lease stage result evidenced seedApproved = .ok (db', done)) :
    SameIntent db db' := by
  simp only [Workflow.workflowCompleteMonitor, bind_eq_ok] at h
  obtain ⟨_, -, _, -, _, -, _, -, _, -, _, -, db₁, hclose, db₂, hupdate, db₃, hevent, hreturn⟩ := h
  cases hreturn
  exact (closeStages hclose).trans ((updateExecution hupdate).trans (workflowEvent hevent))

/-- Finishing an execution. -/
theorem workflowFinish {lease : Lease} {outcome : Option Outcome} {reason : Option String} {result : Bool}
    (h : workflowFinish db now lease outcome reason = .ok (db', result)) : SameIntent db db' := by
  simp only [Workflow.workflowFinish, bind_eq_ok] at h
  obtain ⟨_, -, _, -, _, -, _, -, _, -, _, -, _, -, db₁, hupdate, db₂, hstate, db₃, hevent, hreturn⟩ := h
  cases hreturn
  exact (updateExecution hupdate).trans ((updateRequestState hstate).trans (workflowEvent hevent))

/-- Giving an execution up. -/
theorem workflowRetry {lease : Lease} {error : Option String} {delay : ℤ} {following : Uuid} {next : Option Uuid}
    (h : workflowRetry db now lease error delay following = .ok (db', next)) : SameIntent db db' := by
  simp only [Workflow.workflowRetry, bind_eq_ok] at h
  obtain ⟨_, -, _, -, _, -, hclose⟩ := h
  exact workflowCloseRetry hclose

/-- Cancelling a request. -/
theorem workflowCancel {request : Uuid} {result : Bool} (h : workflowCancel db now request = .ok (db', result)) :
    SameIntent db db' := by
  simp only [Workflow.workflowCancel, bind_eq_ok] at h
  obtain ⟨_, -, h⟩ := h
  split at h
  · cases h
    exact refl _
  · simp only [bind_eq_ok] at h
    obtain ⟨db₁, hclose, db₂, hupdate, db₃, hstate, db₄, hevent, hreturn⟩ := h
    cases hreturn
    exact (closeStages hclose).trans ((updateExecution hupdate).trans ((updateRequestState hstate).trans
      (workflowEvent hevent)))

end SameIntent

/-! ### Changes -/

/-- The key row of a request. -/
def AnalysisRequest.keyRow (r : AnalysisRequest) : RequestKey :=
  ⟨r.workspaceId, r.idempotencyKey, r.id, r.parametersHash⟩

/-- The stock that the parameters of an Add name. -/
def RequestParameters.added? : RequestParameters → Option (Uuid × Uuid)
  | .listed _ (some watchlist) security _ .watchlistAdd _ _ => some (watchlist, security)
  | _ => none

/-- The changes that a call can make to requests, keys and memberships; a new key row carries the
hash of the parameters of the call. -/
inductive Change (digest : RequestParameters → String) (db db' : Database) : Prop where
  | keep (h : SameIntent db db')
  | workspace (hrequests : db'.requests = db.requests) (hkeys : db'.keys = db.keys)
      (hmemberships : db'.memberships = db.memberships)
  | request (r : AnalysisRequest) (p : RequestParameters) (hrequests : db'.requests.rows = db.requests.rows ++ [r])
      (hkeys : db'.keys.rows = db.keys.rows ++ [r.keyRow]) (hmemberships : db'.memberships = db.memberships)
      (hhash : r.parametersHash = digest p) (hadd : p.added? = none) (hmembership : r.membershipId = none)
  | add (m : Membership) (r : AnalysisRequest) (p : RequestParameters)
      (hinactive : ∀ m' ∈ db.memberships.rows, m'.stock = m.stock → ¬ m'.Active)
      (hmemberships : db'.memberships.rows = db.memberships.rows ++ [m])
      (hgeneration : m.generation =
        nextNumber ((db.memberships.rows.filter fun m' => m'.stock = m.stock).map (·.generation)))
      (hrequests : db'.requests.rows = db.requests.rows ++ [r])
      (hkeys : db'.keys.rows = db.keys.rows ++ [r.keyRow]) (hhash : r.parametersHash = digest p)
      (hadd : p.added? = some m.stock) (htrigger : r.trigger = .watchlistAdd) (hmembership : r.membershipId = some m.id)
  | join (m : Membership) (r : AnalysisRequest) (p : RequestParameters) (k : RequestKey)
      (hm : m ∈ db.memberships.rows) (hactive : m.Active) (hr : r ∈ db.requests.rows)
      (htrigger : r.trigger = .watchlistAdd) (hmembership : r.membershipId = some m.id)
      (hrequests : db'.requests = db.requests) (hmemberships : db'.memberships = db.memberships)
      (hkeys : db'.keys.rows = db.keys.rows ++ [k]) (hrequest : k.requestId = r.id)
      (hhash : k.parametersHash = digest p) (hadd : p.added? = some m.stock)
  | remove (membership : Uuid) (now : Instant) (hrequests : db'.requests = db.requests) (hkeys : db'.keys = db.keys)
      (hmemberships : db'.memberships.rows = db.memberships.rows.map fun m =>
        if m.id = membership ∧ m.Active then { m with removedAt := some now } else m)

section Changes

variable {digest : RequestParameters → String} {db db' : Database} {now : Instant}

/-- The active membership of a stock is active and has the stock. -/
theorem activeMembership_eq_some {watchlist security : Uuid} {m : Membership}
    (h : activeMembership db watchlist security = some m) :
    m ∈ db.memberships.rows ∧ m.stock = (watchlist, security) ∧ m.Active := by
  have hfound := List.find?_some h
  simp only [decide_eq_true_eq] at hfound
  exact ⟨List.mem_of_find?_eq_some h, hfound⟩

/-- A stock without an active membership has none. -/
theorem activeMembership_eq_none {watchlist security : Uuid} (h : activeMembership db watchlist security = none) :
    ∀ m ∈ db.memberships.rows, m.stock = (watchlist, security) → ¬ m.Active := by
  intro m hm hstock hactive
  have hnone := List.find?_eq_none.mp h m hm
  simp only [decide_eq_true_eq, not_and] at hnone
  exact hnone hstock hactive

/-- The request that the Add of a membership made. -/
theorem initialRequest_eq_some {membership : Uuid} {r : AnalysisRequest} (h : initialRequest db membership = some r) :
    r ∈ db.requests.rows ∧ r.membershipId = some membership ∧ r.trigger = .watchlistAdd := by
  have hfound := List.find?_some h
  simp only [decide_eq_true_eq] at hfound
  exact ⟨List.mem_of_find?_eq_some h, hfound⟩

/-- Making the request of an enqueue changes the tables in one of the listed ways. -/
theorem enqueueNew_change {workspace request : Uuid} {a : EnqueueArguments} {options : RequestOptions}
    {ids : FreshIds} (h : enqueueNew db now workspace a options (digest (a.parameters workspace options)) ids =
      .ok (db', request)) : Change digest db db' := by
  unfold enqueueNew at h
  split at h
  case h_1 watchlist htrigger hwatchlist =>
    have hadd : (a.parameters workspace options).added? = some (watchlist, a.security) := by
      simp [EnqueueArguments.parameters, RequestParameters.added?, htrigger, hwatchlist]
    split at h
    case h_1 m hactive =>
      obtain ⟨hm, hstock, hactive⟩ := activeMembership_eq_some hactive
      simp only [joinMembership, insertKey, bind_eq_ok, orRaise_eq_ok] at h
      obtain ⟨_, -, r, hr, _, -, db₁, ⟨keys, hkeys, hkeyReturn⟩, hreturn⟩ := h
      cases hkeyReturn
      cases hreturn
      obtain ⟨hmem, hmembership, hadded⟩ := initialRequest_eq_some hr
      exact .join m r _ _ hm hactive hmem hadded hmembership rfl rfl (Table.insert_eq_ok hkeys) rfl rfl
        (hadd.trans (congrArg some hstock.symm))
    case h_2 hnone =>
      simp only [openMembership, bind_eq_ok] at h
      obtain ⟨db₁, ⟨memberships, hopen, hopened⟩, db₂, hcreate, hreturn⟩ := h
      cases hopened
      cases hreturn
      obtain ⟨hcreated, -⟩ := createRequest_eq_ok hcreate
      have hmemberships := (congrArg Table.rows hcreated.memberships).trans (Table.insert_eq_ok hopen)
      exact .add _ _ _ (activeMembership_eq_none hnone) hmemberships rfl hcreated.requests hcreated.keys rfl hadd
        htrigger rfl
  case h_2 hother =>
    simp only [bind_eq_ok] at h
    obtain ⟨db₁, hcreate, hreturn⟩ := h
    cases hreturn
    obtain ⟨hcreated, -⟩ := createRequest_eq_ok hcreate
    refine .request _ _ hcreated.requests hcreated.keys hcreated.memberships rfl ?_ rfl
    cases htrigger : a.trigger <;> cases hwatchlist : a.watchlist <;>
      simp only [EnqueueArguments.parameters, RequestParameters.added?, htrigger, hwatchlist]
    exact (hother _ htrigger hwatchlist).elim

/-- An enqueue changes the tables in one of the listed ways. -/
theorem workflowEnqueue_change {registry : Registry} {a : EnqueueArguments} {ids : FreshIds}
    {result : Option RequestResult} (h : workflowEnqueue digest registry db now a ids = .ok (db', result)) :
    Change digest db db' := by
  simp only [workflowEnqueue, bind_eq_ok] at h
  obtain ⟨workspace, -, options, -, h⟩ := h
  split at h
  · simp only [bind_eq_ok] at h
    obtain ⟨_, -, hreturn⟩ := h
    cases hreturn
    exact .keep (.refl _)
  · simp only [bind_eq_ok] at h
    obtain ⟨_, -, ⟨db₁, request⟩, hnew, hreturn⟩ := h
    cases hreturn
    exact enqueueNew_change hnew

/-- A filing monitor enqueue changes the tables in one of the listed ways. -/
theorem workflowEnqueueMonitor_change {a : MonitorArguments} {request execution : Uuid}
    {result : Option RequestResult}
    (h : workflowEnqueueMonitor digest db now a request execution = .ok (db', result)) : Change digest db db' := by
  simp only [workflowEnqueueMonitor, bind_eq_ok] at h
  obtain ⟨_, -, _, -, h⟩ := h
  split at h
  · simp only [bind_eq_ok] at h
    obtain ⟨_, -, hreturn⟩ := h
    cases hreturn
    exact .keep (.refl _)
  · simp only [bind_eq_ok] at h
    obtain ⟨_, -, _, -, db₁, hcreate, hreturn⟩ := h
    cases hreturn
    obtain ⟨hcreated, -⟩ := createRequest_eq_ok hcreate
    exact .request _ (.monitor _ _ _ _) hcreated.requests hcreated.keys hcreated.memberships rfl rfl rfl

/-- Removing a membership changes the tables in one of the listed ways. -/
theorem workflowRemoveMembership_change {membership : Uuid} {result : Bool}
    (h : workflowRemoveMembership db now membership = .ok (db', result)) : Change digest db db' := by
  simp only [workflowRemoveMembership, bind_eq_ok] at h
  obtain ⟨m, -, _, -, memberships, hupdate, hreturn⟩ := h
  cases hreturn
  exact .remove membership now rfl rfl (Table.update_eq_ok hupdate)

/-- Making a workspace changes the tables in one of the listed ways. -/
theorem workflowCreateWorkspace_change {workspace watchlist : Uuid}
    (h : workflowCreateWorkspace db workspace watchlist = .ok db') : Change digest db db' := by
  simp only [workflowCreateWorkspace, bind_eq_ok] at h
  obtain ⟨workspaces, -, watchlists, -, hreturn⟩ := h
  cases hreturn
  exact .workspace rfl rfl rfl

/-- Every call that returns changes the tables in one of the listed ways. -/
theorem perform_change {registry : Registry} {c : Call} {answer : Answer}
    (h : perform digest registry db now c = .ok (db', answer)) : Change digest db db' := by
  cases c <;> obtain ⟨result, hcall, hreturn⟩ := bind_eq_ok.mp h <;> cases hreturn
  case createWorkspace => exact workflowCreateWorkspace_change hcall
  case enqueue => exact workflowEnqueue_change hcall
  case enqueueMonitor => exact workflowEnqueueMonitor_change hcall
  case removeMembership => exact workflowRemoveMembership_change hcall
  case claim => exact .keep (.claimSelected hcall)
  case claimBootstrap => exact .keep (.claimSelected hcall)
  case claimMonitor => exact .keep (.claimSelected hcall)
  case renew => exact .keep (.workflowRenew hcall)
  case startStage => exact .keep (.workflowStartStage hcall)
  case finishStage => exact .keep (.workflowFinishStage hcall)
  case completeMonitor => exact .keep (.workflowCompleteMonitor hcall)
  case finish => exact .keep (.workflowFinish hcall)
  case retry => exact .keep (.workflowRetry hcall)
  case cancel => exact .keep (.workflowCancel hcall)

/-- The change of a step of the workflow. -/
theorem State.after_change (s : State) (c : Call) : Change digest s.db (s.after digest c).db := by
  unfold State.after
  split
  case h_1 db answer hperform => exact perform_change hperform
  case h_2 => exact .keep (.refl _)

end Changes

end EquityEval.Workflow
