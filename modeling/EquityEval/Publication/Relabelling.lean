import EquityEval.Publication.LastStep
import EquityEval.Publication.Lineage

/-!
# Intents of requests that were there before

An intent is recorded for the request that an enqueue returns. That request may be one that was there
before: its key was repeated, or a stock was added again. The functions refuse it when it has started; in a
run where they never meet one that is still queued, every intent was recorded when its request was created.
-/

namespace EquityEval.Publication

open Relational TransitionSystem Text
open Fundamentals (jsonbIn)
open Workflow (Uuid Instant AnalysisRequest Registry FreshIds EnqueueArguments RequestParameters RequestResult SameIntent
  enqueueWorkspace normalizedOptions checkQuote activeMembership initialRequest workflowEnqueue)

/-! ### Repeated enqueues -/

/-- An enqueue repeats the request: it has its key, or it adds the stock of its membership again. -/
def Repeats (digest : RequestParameters → String) (registry : Registry) (db : Workflow.Database) (now : Instant) (a : EnqueueArguments)
    (r : AnalysisRequest) : Prop :=
  ∃ workspace options, enqueueWorkspace db a = .ok workspace ∧ normalizedOptions registry a.options = .ok options ∧
    match db.key? workspace a.key with
    | some existing => existing.requestId = r.id ∧ existing.parametersHash = digest (a.parameters workspace options)
    | none => checkQuote registry now a = .ok () ∧ a.trigger = .watchlistAdd ∧
      ∃ watchlist m, a.watchlist = some watchlist ∧ activeMembership db watchlist a.security = some m ∧ m.quoteIdentifierId = a.quote ∧
        initialRequest db m.id = some r ∧ r.parametersHash = digest (a.parameters workspace options)

/-- The call records an intent for a request that was there before: it repeats the request, which has no such intent
and has not started. -/
structure Relabels (env : Environment) (s : State) (kind : Kind) (a : PublicationArguments) (r : AnalysisRequest) : Prop where
  present : r ∈ s.db.workflow.requests.rows
  repeats : ∃ v manifest selector, (s.db.store kind).review? a.review = some v ∧ jsonbIn env.limits v.manifestText = some manifest ∧
    member "selector" manifest = some selector ∧ some v.workspaceId = a.workspace ∧
    (∀ id ∈ a.watchlist, ∃ w ∈ s.db.workflow.watchlists.rows, w.id = id ∧ some w.workspaceId = a.workspace) ∧
    (kind = .valuation → savedParent s.db v a) ∧
    Repeats env.parametersHash s.registry s.db.workflow s.now (a.enqueue env v selector) r
  unintended : (s.db.store kind).intent? r.id = none
  queued : ∀ e ∈ s.db.workflow.executions.rows, e.requestId = r.id → e.attemptNo = 1 ∧ e.state = .queued
  eligible : ∃ membership, requestMembership s.db.workflow r = .ok membership

section

variable {workflow workflow' : Workflow.Database} {digest : RequestParameters → String} {registry : Registry} {now : Instant}

/-- The request of a result is the one that was asked for. -/
theorem request?_of_result {request : Uuid} {r : AnalysisRequest}
    (h : (Workflow.workflowRequestResult workflow request).bind (fun result => workflow.request? result.requestId) = some r) :
    workflow.request? request = some r := by
  unfold Workflow.workflowRequestResult at h
  cases hrequest : workflow.request? request with
  | none =>
    rw [hrequest] at h
    cases h
  | some q =>
    rw [hrequest] at h
    have hsame : workflow.request? q.id = some r := h
    rwa [Workflow.request?_of_mem (Table.lookup_eq_some hrequest).1] at hsame

/-- The request that is created is the one that is returned, and comes after its parent. -/
theorem createRequest_returns {q : AnalysisRequest} {execution : Uuid} (h : Workflow.createRequest workflow now q execution = .ok workflow') :
    Adds workflow workflow' ∧ ∀ r, workflow'.request? q.id = some r → workflow'.requests.rows = workflow.requests.rows ++ [r] := by
  have hrows := (Workflow.createRequest_eq_ok h).1.requests
  refine ⟨.add q hrows (createRequest_parent h), fun r hr => ?_⟩
  have hmem : q ∈ workflow'.requests.rows := by
    rw [hrows]
    exact List.mem_append_right _ (List.mem_singleton_self q)
  rw [Workflow.request?_of_mem hmem] at hr
  cases hr
  exact hrows

/-- The request that an enqueue returns is a new one, or one that it repeats. -/
theorem workflowEnqueue_returns {a : EnqueueArguments} {ids : FreshIds} {result : Option RequestResult}
    (h : workflowEnqueue digest registry workflow now a ids = .ok (workflow', result)) :
    Adds workflow workflow' ∧ ∀ r, result.bind (fun result => workflow'.request? result.requestId) = some r →
      (Repeats digest registry workflow now a r ∧ workflow'.requests = workflow.requests ∧ workflow'.executions = workflow.executions ∧
        workflow'.memberships = workflow.memberships) ∨ workflow'.requests.rows = workflow.requests.rows ++ [r] := by
  simp only [workflowEnqueue, bind_eq_ok] at h
  obtain ⟨workspace, hworkspace, options, hoptions, h⟩ := h
  cases hkey : workflow.key? workspace a.key with
  | some existing =>
    simp only [hkey, bind_eq_ok, raiseIf_eq_ok, not_not] at h
    obtain ⟨_, hhash, hreturn⟩ := h
    cases hreturn
    refine ⟨.keep rfl, fun r hr => Or.inl ⟨⟨workspace, options, hworkspace, hoptions, ?_⟩, rfl, rfl, rfl⟩⟩
    rw [hkey]
    exact ⟨(Table.lookup_eq_some (request?_of_result hr)).2.symm, hhash⟩
  | none =>
    simp only [hkey, bind_eq_ok] at h
    obtain ⟨_, hquote, ⟨db₁, request⟩, hnew, hreturn⟩ := h
    cases hreturn
    unfold Workflow.enqueueNew at hnew
    split at hnew
    next watchlist htrigger hwatchlist =>
      split at hnew
      next m hactive =>
        simp only [Workflow.joinMembership, Workflow.insertKey, bind_eq_ok, orRaise_eq_ok, raiseIf_eq_ok, not_not] at hnew
        obtain ⟨_, hmquote, q, hq, _, hhash, db₂, ⟨keys, -, hkeyReturn⟩, hreturn⟩ := hnew
        cases hkeyReturn
        cases hreturn
        refine ⟨.keep rfl, fun r hr => Or.inl ⟨⟨workspace, options, hworkspace, hoptions, ?_⟩, rfl, rfl, rfl⟩⟩
        have hfound : workflow.request? q.id = some r := request?_of_result hr
        rw [Workflow.request?_of_mem (Workflow.initialRequest_eq_some hq).1] at hfound
        cases hfound
        rw [hkey]
        exact ⟨hquote, htrigger, watchlist, m, hwatchlist, hactive, hmquote, hq, hhash⟩
      next =>
        simp only [Workflow.openMembership, bind_eq_ok] at hnew
        obtain ⟨db₂, ⟨memberships, -, hopened⟩, db₃, hcreate, hreturn⟩ := hnew
        cases hopened
        cases hreturn
        obtain ⟨hadds, hcreated⟩ := createRequest_returns hcreate
        refine ⟨?_, fun r hr => Or.inr (hcreated r (request?_of_result hr))⟩
        cases hadds with
        | keep h => exact .keep h
        | add q hrows hparent => exact .add q hrows hparent
    next =>
      simp only [bind_eq_ok] at hnew
      obtain ⟨db₂, hcreate, hreturn⟩ := hnew
      cases hreturn
      obtain ⟨hadds, hcreated⟩ := createRequest_returns hcreate
      exact ⟨hadds, fun r hr => Or.inr (hcreated r (request?_of_result hr))⟩

/-- What a workflow that is asked for the same does to requests. -/
theorem Adds.of_sameIntent (h : SameIntent workflow workflow') : Adds workflow workflow' := .keep h.requests

/-- A call of the workflow adds at most one request, after its parent. -/
theorem perform_adds {c : Workflow.Call} {answer : Workflow.Answer} (h : Workflow.perform digest registry workflow now c = .ok (workflow', answer)) :
    Adds workflow workflow' := by
  cases c <;> obtain ⟨result, hcall, hreturn⟩ := bind_eq_ok.mp h <;> cases hreturn
  case createWorkspace =>
    simp only [Workflow.workflowCreateWorkspace, bind_eq_ok] at hcall
    obtain ⟨workspaces, -, watchlists, -, hreturn⟩ := hcall
    cases hreturn
    exact .keep rfl
  case enqueue => exact (workflowEnqueue_returns hcall).1
  case enqueueMonitor => exact workflowEnqueueMonitor_adds hcall
  case removeMembership =>
    simp only [Workflow.workflowRemoveMembership, bind_eq_ok] at hcall
    obtain ⟨m, -, _, -, memberships, -, hreturn⟩ := hcall
    cases hreturn
    exact .keep rfl
  case claim => exact .of_sameIntent (.claimSelected hcall)
  case claimBootstrap => exact .of_sameIntent (.claimSelected hcall)
  case claimMonitor => exact .of_sameIntent (.claimSelected hcall)
  case renew => exact .of_sameIntent (.workflowRenew hcall)
  case startStage => exact .of_sameIntent (.workflowStartStage hcall)
  case finishStage => exact .of_sameIntent (.workflowFinishStage hcall)
  case completeMonitor => exact .of_sameIntent (.workflowCompleteMonitor hcall)
  case finish => exact .of_sameIntent (.workflowFinish hcall)
  case retry => exact .of_sameIntent (.workflowRetry hcall)
  case cancel => exact .of_sameIntent (.workflowCancel hcall)

end

/-! ### Steps -/

section

variable {env : Environment} {s s' : State}

/-- What a step does to the intents of a kind: they stay, or an enqueue records one for the request that it returns,
which is new or relabelled. -/
inductive Intends (env : Environment) (s : State) (action : Action) (s' : State) (kind : Kind) : Prop
  | keep (h : (s'.db.store kind).intents = (s.db.store kind).intents)
  | record (a : PublicationArguments) (ids : FreshIds) (r : AnalysisRequest) (i : Intent) (haction : action = .call (.enqueue kind a ids))
      (hr : r ∈ s'.db.workflow.requests.rows) (hrequest : r.id = i.requestId)
      (hrows : (s'.db.store kind).intents.rows = (s.db.store kind).intents.rows ++ [i])
      (hmembership : ∃ m, requestMembership s'.db.workflow r = .ok m ∧ i.membershipId = m.map (·.id) ∧
        i.membershipGeneration = m.map (·.generation) ∧ i.scopeId = scopeOf i.membershipId)
      (hnew : Relabels env s kind a r ∨ s'.db.workflow.requests.rows = s.db.workflow.requests.rows ++ [r])

/-- The membership of a request is read from requests and memberships. -/
theorem requestMembership_congr {workflow workflow' : Workflow.Database} (hrequests : workflow'.requests = workflow.requests)
    (hmemberships : workflow'.memberships = workflow.memberships) (r : AnalysisRequest) :
    requestMembership workflow' r = requestMembership workflow r := by
  have hlineage : ∀ fuel id, lineageMembership workflow' fuel id = lineageMembership workflow fuel id := by
    intro fuel
    induction fuel with
    | zero => exact fun _ => rfl
    | succ fuel ih =>
      intro id
      have hfound : workflow'.request? id = workflow.request? id := by rw [Workflow.Database.request?, hrequests, Workflow.Database.request?]
      simp only [lineageMembership, hfound, funext ih]
  unfold requestMembership Workflow.Database.membership?
  rw [hlineage, hrequests, hmemberships]

/-- A recorded intent has the membership of its request, which has not started. -/
theorem recordIntent_eq_ok {kind : Kind} {db db' : Database} {r : AnalysisRequest} {v : Review} (h : recordIntent db kind r v = .ok db') :
    (∀ e ∈ db.workflow.executions.rows, e.requestId = r.id → e.attemptNo = 1 ∧ e.state = .queued) ∧ db'.workflow = db.workflow ∧
      (∀ kind', kind' ≠ kind → db'.store kind' = db.store kind') ∧
      ∃ m i, requestMembership db.workflow r = .ok m ∧ (db'.store kind).intents.rows = (db.store kind).intents.rows ++ [i] ∧
        i.requestId = r.id ∧ i.membershipId = m.map (·.id) ∧ i.membershipGeneration = m.map (·.generation) ∧
        i.scopeId = scopeOf i.membershipId := by
  simp only [recordIntent, bind_eq_ok, raiseIf_eq_ok, pure_eq_ok] at h
  obtain ⟨_, hstarted, m, hmembership, intents, hinsert, store, hproject, rfl⟩ := h
  obtain ⟨-, latest, rfl, -⟩ := Store.project_eq_ok hproject
  refine ⟨fun e he hrequest => ?_, Database.workflow_withStore _ _, fun kind' hne => Database.store_withStore_of_ne hne _, m,
    ⟨r.id, v.id, m.map (·.id), m.map (·.generation), scopeOf (m.map (·.id))⟩, hmembership, ?_, rfl, rfl, rfl, rfl⟩
  · by_contra hother
    exact hstarted ⟨e, he, hrequest, not_and_or.mp hother⟩
  · rw [Database.store_withStore]
    exact Table.insert_eq_ok hinsert

/-- An enqueue of a review records an intent for the request that it returns. -/
theorem enqueue_intends {kind kind' : Kind} {a : PublicationArguments} {ids : FreshIds} {db : Database} {result : Option RequestResult}
    (h : enqueue env kind s.registry s.db s.now a ids = .ok (db, result)) :
    Adds s.db.workflow db.workflow ∧ Intends env s (.call (.enqueue kind a ids)) { s with db } kind' := by
  simp only [enqueue, bind_eq_ok, orRaise_eq_ok, raiseIf_eq_ok, not_or, not_not] at h
  obtain ⟨v, hv, _, ⟨hworkspace, hwatchlist⟩, _, hparent, manifest, hmanifest, selector, hselector, ⟨workflow, requested⟩, henqueue, r, hr, h⟩ := h
  obtain ⟨hadds, hreturns⟩ := workflowEnqueue_returns henqueue
  split at h
  next previous =>
    obtain ⟨_, -, hreturn⟩ := bind_eq_ok.mp h
    cases hreturn
    exact ⟨hadds, .keep (by rw [Database.store_workflow])⟩
  next hnone =>
    obtain ⟨db₁, hrecord, hreturn⟩ := bind_eq_ok.mp h
    cases hreturn
    obtain ⟨hstarted, hworkflow, hother, m, i, hmembership, hrows, hrequest, hread⟩ := recordIntent_eq_ok hrecord
    rw [hworkflow]
    refine ⟨hadds, ?_⟩
    by_cases hkind : kind' = kind
    · subst hkind
      have hpresent : r ∈ workflow.requests.rows := by
        obtain ⟨answer, -, hfound⟩ := Option.bind_eq_some_iff.mp hr
        exact (Table.lookup_eq_some hfound).1
      rw [Database.store_workflow] at hrows hnone
      refine .record a ids r i rfl ?_ hrequest.symm hrows ⟨m, ?_, hread⟩ ?_
      · rw [hworkflow]
        exact hpresent
      · rw [hworkflow]
        exact hmembership
      · rw [hworkflow]
        rcases hreturns r hr with ⟨hrepeats, hrequests, hexecutions, hmemberships⟩ | hnew
        · refine Or.inl ⟨?_, ⟨v, manifest, selector, hv, hmanifest, hselector, hworkspace, ?_, ?_, hrepeats⟩, hnone, ?_, m, ?_⟩
          · rw [← hrequests]
            exact hpresent
          · intro id hid
            by_contra hmissing
            exact hwatchlist ⟨id, hid, hmissing⟩
          · intro hvaluation
            by_contra hunsaved
            exact hparent ⟨hvaluation, hunsaved⟩
          · rw [← hexecutions]
            exact hstarted
          · rw [← hmembership]
            exact (requestMembership_congr hrequests hmemberships r).symm
        · exact Or.inr hnew
    · refine .keep ?_
      rw [hother kind' hkind, Database.store_workflow]

/-- Freezing records no intent. -/
theorem freeze_intends {kind : Kind} {db db' : Database} {now : Instant} {lease : Workflow.Lease} {stage review fresh id : Uuid}
    (h : freeze env kind db now lease stage review fresh = .ok (db', id)) :
    db'.workflow = db.workflow ∧ ∀ kind', (db'.store kind').intents = (db.store kind').intents := by
  simp only [freeze, bind_eq_ok, orRaise_eq_ok] at h
  obtain ⟨e, -, r, -, v, -, _, -, _, -, _, -, manifest, -, _, -, membership, -, h⟩ := h
  split at h
  next i =>
    obtain ⟨_, -, hreturn⟩ := bind_eq_ok.mp h
    cases hreturn
    exact ⟨rfl, fun _ => rfl⟩
  next =>
    simp only [bind_eq_ok] at h
    obtain ⟨inputs, -, store, hproject, hreturn⟩ := h
    cases hreturn
    obtain ⟨-, latest, rfl, -⟩ := Store.project_eq_ok hproject
    refine ⟨Database.workflow_withStore _ _, fun kind' => ?_⟩
    by_cases hkind : kind' = kind
    · rw [hkind, Database.store_withStore]
    · rw [Database.store_withStore_of_ne hkind]

/-- Publishing adds no request. -/
theorem publish_requests {kind : Kind} {db db' : Database} {now : Instant} {lease : Workflow.Lease} {stage input fresh id : Uuid}
    {payload : List CodePoint} (h : publish env kind db now lease stage input payload fresh = .ok (db', id)) :
    db'.workflow.requests = db.workflow.requests := by
  unfold publish at h
  obtain ⟨p, -, h⟩ := bind_eq_ok.mp h
  split at h
  next old =>
    obtain ⟨_, -, hreturn⟩ := bind_eq_ok.mp h
    cases hreturn
    rfl
  next =>
    simp only [bind_eq_ok] at h
    obtain ⟨e, -, r, -, i, -, v, -, _, -, _, -, manifest, -, _, -, ⟨store, outcome⟩, -, ⟨db₁, _⟩, hstage, ⟨db₂, _⟩, hfinish, store', -, _, -,
      hreturn⟩ := h
    cases hreturn
    rw [Database.workflow_withStore]
    exact ((SameIntent.workflowFinishStage hstage).trans (.workflowFinish hfinish)).requests

/-- Publishing records no intent. -/
theorem publish_intends {kind : Kind} {db db' : Database} {now : Instant} {lease : Workflow.Lease} {stage input fresh id : Uuid}
    {payload : List CodePoint} (hs : db.Sound env) (h : publish env kind db now lease stage input payload fresh = .ok (db', id)) (kind' : Kind) :
    (db'.store kind').intents = (db.store kind').intents := by
  obtain ⟨-, ⟨old, -, rfl, -⟩ | ⟨-, r, i, v, x, saved, latest, -, hnew⟩⟩ := publish_eq_ok hs.coherent (hs.stores kind) h
  · rfl
  · rw [hnew.tables]
    by_cases hkind : kind' = kind
    · rw [hkind, Database.store_withStore, hnew.rows.rest]
    · rw [Database.store_withStore_of_ne hkind, Database.store_workflow]

/-- A call records an intent only for the request that an enqueue returns, and adds requests after their parents. -/
theorem perform_intends {db : Database} {c : Call} (hs : s.db.Sound env) (h : perform env s.registry s.db s.now c = .ok db) (kind : Kind) :
    Adds s.db.workflow db.workflow ∧ Intends env s (.call c) { s with db } kind := by
  cases c <;> simp only [perform] at h
  case workflow c =>
    obtain ⟨⟨workflow, answer⟩, hcall, hreturn⟩ := bind_eq_ok.mp h
    cases hreturn
    exact ⟨perform_adds hcall, .keep (by rw [Database.store_workflow])⟩
  case review reviewed v evidenced =>
    simp only [insertReview, bind_eq_ok, pure_eq_ok] at h
    obtain ⟨manifest, -, _, -, _, -, _, -, _, -, _, -, reviews, -, rfl⟩ := h
    refine ⟨.keep (by rw [Database.workflow_withStore]), .keep ?_⟩
    by_cases hkind : kind = reviewed
    · rw [hkind, Database.store_withStore]
    · rw [Database.store_withStore_of_ne hkind]
  case enqueue enqueued a ids =>
    obtain ⟨⟨db', answer⟩, hcall, hreturn⟩ := bind_eq_ok.mp h
    cases hreturn
    exact enqueue_intends hcall
  case freeze =>
    obtain ⟨⟨db', answer⟩, hcall, hreturn⟩ := bind_eq_ok.mp h
    cases hreturn
    obtain ⟨hworkflow, hintents⟩ := freeze_intends hcall
    exact ⟨.keep (congrArg _ hworkflow), .keep (hintents kind)⟩
  case publish =>
    obtain ⟨⟨db', answer⟩, hcall, hreturn⟩ := bind_eq_ok.mp h
    cases hreturn
    exact ⟨.keep (publish_requests hcall), .keep (publish_intends hs hcall kind)⟩

/-- A step records an intent only for the request that an enqueue returns, and adds requests after their parents. -/
theorem step_intends {action : Action} (hs : s.db.Sound env) (hstep : (system env).step s action s') (kind : Kind) :
    Adds s.db.workflow s'.db.workflow ∧ Intends env s action s' kind := by
  cases action with
  | advance later =>
    rw [hstep.2]
    exact ⟨.keep rfl, .keep rfl⟩
  | register registry =>
    rw [show s' = { s with registry } from hstep]
    exact ⟨.keep rfl, .keep rfl⟩
  | call c =>
    rw [show s' = s.after env c from hstep]
    unfold State.after
    split
    next db hperform => exact perform_intends hs hperform kind
    next => exact ⟨.keep rfl, .keep rfl⟩

end

/-! ### Runs -/

/-- The steps where no request is relabelled. -/
def faithful (env : Environment) : System State Action where
  initial := (system env).initial
  step s action s' := (system env).step s action s' ∧
    ∀ kind a ids, action = .call (.enqueue kind a ids) → ∀ r, ¬ Relabels env s kind a r

section

variable {env : Environment} {s s' : State}

/-- A faithful run is a run. -/
theorem run_of_faithful (h : (faithful env).Run s s') : (system env).Run s s' := by
  induction h with
  | refl => exact .refl _
  | step _ hstep ih => exact .step ih hstep.1

/-- States that faithful steps reach are reachable. -/
theorem reachable_of_faithful (h : (faithful env).Reachable s) : (system env).Reachable s := by
  induction h with
  | initial h => exact .initial h
  | step _ hstep ih => exact .step ih hstep.1

/-- Calls that enqueue no review are faithful. -/
theorem reachable_afterAll {calls : List Call} (hs : (faithful env).Reachable s) (h : ∀ c ∈ calls, ∀ kind a ids, c ≠ .enqueue kind a ids) :
    (faithful env).Reachable (s.afterAll env calls) := by
  induction calls generalizing s with
  | nil => exact hs
  | cons c calls ih =>
    obtain ⟨hc, hcalls⟩ := List.forall_mem_cons.mp h
    refine ih (.step (a := Action.call c) hs ⟨rfl, fun kind a ids haction => ?_⟩) hcalls
    cases haction
    exact absurd rfl (hc kind a ids)

/-- In every reachable state requests come after their parents. -/
theorem descends_of_reachable (hs : (system env).Reachable s) : Descends s.db.workflow.requests.rows := by
  induction hs with
  | initial h =>
    rw [show _ = Database.empty from h]
    intro before r after hrows
    cases before <;> cases hrows
  | step hs hstep ih => exact (step_intends (sound_invariant.holds hs) hstep .fundamentals).1.descends ih

/-- What is recorded of a request: the closest membership, and its scope. -/
def Placed (s : State) (i : Intent) : Prop :=
  ∃ r ∈ s.db.workflow.requests.rows, r.id = i.requestId ∧ Nearest s.db.workflow r i.membershipId ∧ i.scopeId = scopeOf i.membershipId

/-- In every reachable state an intent has the closest membership of its request. -/
theorem placed_of_reachable (hs : (system env).Reachable s) (kind : Kind) : ∀ i ∈ (s.db.store kind).intents.rows, Placed s i := by
  induction hs with
  | initial h =>
    rw [show _ = Database.empty from h]
    cases kind <;> exact nofun
  | @step t t' action hs hstep ih =>
    have hsound := sound_invariant.holds hs
    have hgrows := (step_changes hsound hstep).goes.requests
    have hold : ∀ i, Placed t i → Placed t' i := by
      rintro i ⟨r, hr, hid, hnearest, hscope⟩
      exact ⟨r, hgrows r hr, hid, hnearest.mono hgrows, hscope⟩
    intro i hi
    cases (step_intends hsound hstep kind).2 with
    | keep h =>
      rw [h] at hi
      exact hold i (ih i hi)
    | record a ids r j haction hr hrequest hrows hmembership hnew =>
      rw [hrows] at hi
      rcases List.mem_append.mp hi with hmem | hadded
      · exact hold i (ih i hmem)
      · cases List.mem_singleton.mp hadded
        obtain ⟨m, hread, hid, -, hscope⟩ := hmembership
        have hnearest := requestMembership_nearest (descends_of_reachable (.step hs hstep)) hr hread
        rw [← hid] at hnearest
        exact ⟨r, hr, hrequest, hnearest, hscope⟩

/-- The intent was recorded by the call that created its request. -/
def AtCreation (env : Environment) (kind : Kind) (s : State) (i : Intent) : Prop :=
  ∃ t a ids t', (faithful env).Reachable t ∧ (faithful env).step t (.call (.enqueue kind a ids)) t' ∧ (faithful env).Run t' s ∧
    (∀ r ∈ t.db.workflow.requests.rows, r.id ≠ i.requestId) ∧ (∃ r ∈ t'.db.workflow.requests.rows, r.id = i.requestId) ∧
    i ∈ (t'.db.store kind).intents.rows

/-- A faithful step records intents of new requests only. -/
theorem step_records {action : Action} (hs : (faithful env).Reachable s) (hstep : (faithful env).step s action s') {kind : Kind} {i : Intent}
    (hi : i ∈ (s'.db.store kind).intents.rows) :
    i ∈ (s.db.store kind).intents.rows ∨ (∃ a ids, action = .call (.enqueue kind a ids)) ∧
      (∀ r ∈ s.db.workflow.requests.rows, r.id ≠ i.requestId) ∧ ∃ r ∈ s'.db.workflow.requests.rows, r.id = i.requestId := by
  cases (step_intends (sound_invariant.holds (reachable_of_faithful hs)) hstep.1 kind).2 with
  | keep h =>
    rw [h] at hi
    exact Or.inl hi
  | record a ids r j haction hr hrequest hrows hmembership hnew =>
    rw [hrows] at hi
    rcases List.mem_append.mp hi with hmem | hadded
    · exact Or.inl hmem
    · cases List.mem_singleton.mp hadded
      have hadded := hnew.resolve_left (hstep.2 kind a ids haction r)
      have hunique := s'.db.workflow.requests.valid.1
      rw [hadded, UniqueBy, List.map_append, List.nodup_append] at hunique
      refine Or.inr ⟨⟨a, ids, haction⟩, fun q hq => ?_, r, hr, hrequest⟩
      rw [← hrequest]
      exact hunique.2.2 q.id (List.mem_map_of_mem hq) r.id (List.mem_singleton_self _)

/-- In a faithful run every intent was recorded at the creation of its request. -/
theorem atCreation (hs : (faithful env).Reachable s) (kind : Kind) : ∀ i ∈ (s.db.store kind).intents.rows, AtCreation env kind s i := by
  induction hs with
  | initial h =>
    rw [show _ = Database.empty from h]
    cases kind <;> exact nofun
  | @step t t' action ht hstep ih =>
    intro i hi
    rcases step_records ht hstep hi with hold | ⟨⟨a, ids, rfl⟩, hnew, hcreated⟩
    · obtain ⟨u, a, ids, u', hu, hcall, hrun, hrest⟩ := ih i hold
      exact ⟨u, a, ids, u', hu, hcall, .step hrun hstep, hrest⟩
    · exact ⟨t, a, ids, t', ht, hstep, .refl t', hnew, hcreated, hi⟩

/-- A request that is there without an intent has none after a faithful run. -/
theorem intents_of_run (hs : (faithful env).Reachable s) (hrun : (faithful env).Run s s') {kind : Kind} {i : Intent}
    (hi : i ∈ (s'.db.store kind).intents.rows) {r : AnalysisRequest} (hr : r ∈ s.db.workflow.requests.rows) (hrequest : r.id = i.requestId) :
    i ∈ (s.db.store kind).intents.rows := by
  induction hrun with
  | refl => exact hi
  | @step t t' action hbefore hstep ih =>
    have ht := hbefore.reachable hs
    rcases step_records ht hstep hi with hold | ⟨-, hnew, -⟩
    · exact ih hold
    · have hgrows : ∀ r ∈ s.db.workflow.requests.rows, r ∈ t.db.workflow.requests.rows := by
        refine (run_of_faithful hbefore).keeps (P := fun t => t.db.Sound env ∧ ∀ r ∈ s.db.workflow.requests.rows, r ∈ t.db.workflow.requests.rows)
          ?_ ⟨sound_invariant.holds (reachable_of_faithful hs), fun _ h => h⟩ |>.2
        rintro u action u' ⟨hu, hkept⟩ hustep
        have hchanges := step_changes hu hustep
        exact ⟨hchanges.sound hu, fun r hr => hchanges.goes.requests r (hkept r hr)⟩
      exact absurd hrequest (hnew r (hgrows r hr))

/-- In a faithful run no request has intents of both kinds. -/
theorem intents_apart (hs : (faithful env).Reachable s) :
    ∀ i ∈ (s.db.store .fundamentals).intents.rows, ∀ j ∈ (s.db.store .valuation).intents.rows, i.requestId ≠ j.requestId := by
  induction hs with
  | initial h =>
    rw [show _ = Database.empty from h]
    exact nofun
  | @step t t' action ht hstep ih =>
    have hsound := sound_invariant.holds (reachable_of_faithful ht)
    intro i hi j hj hsame
    rcases step_records ht hstep hi with hiold | ⟨⟨a, ids, rfl⟩, hinew, -⟩
    · rcases step_records ht hstep hj with hjold | ⟨-, hjnew, -⟩
      · exact ih i hiold j hjold hsame
      · obtain ⟨r, hr, -, -, hid, -⟩ := (hsound.stores .fundamentals).intents i hiold
        exact hjnew r hr (hid.trans hsame)
    · rcases step_records ht hstep hj with hjold | ⟨⟨a', ids', hother⟩, -, -⟩
      · obtain ⟨r, hr, -, -, hid, -⟩ := (hsound.stores .valuation).intents j hjold
        exact hinew r hr (hid.trans hsame.symm)
      · cases hother

/-- In a run where no enqueue of a review returns a queued request without such an intent that was there before, every
intent was recorded when its request was created and stays as it is, no request has two, and the membership of an
intent is the closest one of the requests that its request descends from. -/
theorem intents_fixed (hs : (faithful env).Reachable s) (hrun : (faithful env).Run s s') :
    (∀ kind, ∀ i ∈ (s.db.store kind).intents.rows, AtCreation env kind s i) ∧
    (∀ kind, ∀ i ∈ (s'.db.store kind).intents.rows, ∀ r ∈ s.db.workflow.requests.rows, r.id = i.requestId →
      i ∈ (s.db.store kind).intents.rows) ∧
    (∀ i ∈ (s.db.store .fundamentals).intents.rows, ∀ j ∈ (s.db.store .valuation).intents.rows, i.requestId ≠ j.requestId) ∧
    (∀ kind, ∀ i ∈ (s.db.store kind).intents.rows, i ∈ (s'.db.store kind).intents.rows ∧
      ∀ i' ∈ (s'.db.store kind).intents.rows, i'.requestId = i.requestId → i' = i) ∧
    ∀ kind, ∀ i ∈ (s.db.store kind).intents.rows, Placed s i := by
  refine ⟨atCreation hs, fun kind i hi r hr hrequest => intents_of_run hs hrun hi hr hrequest, intents_apart hs, fun kind i hi => ?_,
    placed_of_reachable (reachable_of_faithful hs)⟩
  have hkept := (keeps_of_run (reachable_of_faithful hs) (run_of_faithful hrun) kind).intents i hi
  exact ⟨hkept, fun i' hi' hrequest => List.inj_on_of_nodup_map (s'.db.store kind).intents.valid hi' hkept hrequest⟩

end

/-! ### A sample -/

/-- A review of fundamentals and no request. -/
def sampleReviewed : State :=
  State.afterAll sampleEnvironment { now := 0, registry := Workflow.sampleStart.registry, db := .empty }
    [.workflow (.createWorkspace 1 2), .review .fundamentals fundamentalsReview true]

/-- A request for the review. -/
def sampleRequested : State := sampleReviewed.after sampleEnvironment (.enqueue .fundamentals ⟨some 1, some 2, 20, "first", none, some 3⟩ ⟨10, 11, 12⟩)

/-- An ordinary request of the same stock with the same options and the key of the request for the review. -/
def sampleOrdinary : State :=
  sampleReviewed.after sampleEnvironment (.workflow (.enqueue (PublicationArguments.enqueue sampleEnvironment
    ⟨some 1, some 2, 20, "first", none, some 3⟩ fundamentalsReview sampleSelector) ⟨10, 11, 12⟩))

/-- The ordinary request after the review was enqueued under its key. -/
def sampleRelabelled : State := sampleOrdinary.after sampleEnvironment (.enqueue .fundamentals ⟨some 1, some 2, 20, "first", none, some 3⟩ ⟨20, 21, 22⟩)

/-- Fundamentals were published, and a refresh of them was requested. -/
def sampleRefreshed : State :=
  sampleRequested.afterAll sampleEnvironment [
    .workflow (.claim (fun _ => false) "worker" 60 13), .workflow (.startStage fundamentalsLease "fundamentals" 30),
    .freeze .fundamentals fundamentalsLease 30 20 31, .publish .fundamentals fundamentalsLease 30 31 (sampleCanonical fundamentalsPayload) 32,
    .review .valuation valuationReview true, .enqueue .fundamentals ⟨some 1, none, 20, "second", some 11, some 3⟩ ⟨13, 14, 15⟩]

/-- A valuation was enqueued under the key of the refresh, and a worker claimed the request. -/
def sampleOwed : State :=
  sampleRefreshed.afterAll sampleEnvironment
    [.enqueue .valuation ⟨some 1, none, 21, "second", some 11, some 3⟩ ⟨16, 17, 18⟩, .workflow (.claim (fun _ => false) "worker" 60 19)]

/-- The review is reached without an enqueue. -/
theorem sampleReviewed_faithful : (faithful sampleEnvironment).Reachable sampleReviewed := by
  apply reachable_afterAll
  · apply System.Reachable.initial
    rfl
  · intro c hc kind a ids hcall
    rw [hcall] at hc
    simp at hc

/-- The request of the sample intends its review from its creation on. -/
theorem intents_fixed_sample : ∃ i ∈ (sampleRequested.db.store .fundamentals).intents.rows,
    AtCreation sampleEnvironment .fundamentals sampleRequested i := by
  have hreachable : (faithful sampleEnvironment).Reachable sampleRequested := by
    refine .step (a := Action.call (.enqueue .fundamentals ⟨some 1, some 2, 20, "first", none, some 3⟩ ⟨10, 11, 12⟩)) sampleReviewed_faithful
      ⟨rfl, fun kind a ids haction r hrelabels => ?_⟩
    have hnone : sampleReviewed.db.workflow.requests.rows = [] := by decide +kernel
    have hpresent := hrelabels.present
    rw [hnone] at hpresent
    cases hpresent
  have hintent : ∃ i ∈ (sampleRequested.db.store .fundamentals).intents.rows, i.requestId = 11 := by decide +kernel
  obtain ⟨i, hi, -⟩ := hintent
  exact ⟨i, hi, (intents_fixed hreachable (.refl sampleRequested)).1 .fundamentals i hi⟩

/-- An ordinary request comes to intend a review that was enqueued later, and a request for fundamentals comes to intend a valuation
as well and is claimed. -/
theorem queued_requests_relabelled :
    (∃ s s', (system sampleEnvironment).Reachable s ∧ (system sampleEnvironment).Run s s' ∧ ∃ r ∈ s.db.workflow.requests.rows,
      s.db.fundamentals.intent? r.id = none ∧ (s'.db.fundamentals.intent? r.id).isSome) ∧
    ∃ s, (system sampleEnvironment).Reachable s ∧ ∃ e ∈ s.db.workflow.executions.rows, e.state.isRunning = true ∧
      (s.db.fundamentals.intent? e.requestId).isSome ∧ (s.db.valuation.intent? e.requestId).isSome := by
  have hreviewed : (system sampleEnvironment).Reachable sampleReviewed := reachable_of_faithful sampleReviewed_faithful
  refine ⟨⟨sampleOrdinary, sampleRelabelled, .step (a := Action.call _) hreviewed rfl, .single (a := Action.call _) rfl, by decide +kernel⟩,
    sampleOwed, ?_, by decide +kernel⟩
  exact (run_afterAll _ _ _).reachable ((run_afterAll _ _ _).reachable (.step (a := Action.call _) hreviewed rfl))

end EquityEval.Publication
