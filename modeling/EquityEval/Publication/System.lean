import EquityEval.Publication.Calls
import EquityEval.Workflow.Idempotency

/-!
# Publications as a transition system

Calls of the workflow, reviews, and the functions of both kinds of results run one after the other;
a call that raises changes nothing. What the tables of a kind refer to stays: a result belongs to the
last execution of a request that is settled, and a projection to a request that intends its context.
-/

namespace EquityEval.Publication

open Relational TransitionSystem Text
open Fundamentals (jsonbIn)
open Workflow (Uuid Instant Lease Outcome SqlError AnalysisRequest Analysis Registry FreshIds Tracks Lives Advances Coherent Represents
  Life lifeSystem Execution workflowLockedLease workflowFinishStage workflowFinish violates)

/-- The clock, the registry and the tables. -/
structure State where
  now : Instant
  registry : Registry
  db : Database

/-- A call, with the identifiers that it generates. -/
inductive Call where
  | workflow (c : Workflow.Call)
  | review (kind : Kind) (v : Review) (evidenced : Bool)
  | enqueue (kind : Kind) (a : PublicationArguments) (ids : FreshIds)
  | freeze (kind : Kind) (lease : Lease) (stage review fresh : Uuid)
  | publish (kind : Kind) (lease : Lease) (stage input : Uuid) (payload : List CodePoint) (fresh : Uuid)

/-- What happens in a step. -/
inductive Action where
  | advance (later : Instant)
  | register (registry : Registry)
  | call (c : Call)

variable (env : Environment)

/-- The tables after a call that returns. -/
def perform (registry : Registry) (db : Database) (now : Instant) : Call → Except SqlError Database
  | .workflow c => do
    let (workflow, _) ← Workflow.perform env.parametersHash registry db.workflow now c
    return { db with workflow }
  | .review kind v evidenced => insertReview env db kind v evidenced
  | .enqueue kind a ids => do
    let (db, _) ← enqueue env kind registry db now a ids
    return db
  | .freeze kind lease stage review fresh => do
    let (db, _) ← freeze env kind db now lease stage review fresh
    return db
  | .publish kind lease stage input payload fresh => do
    let (db, _) ← publish env kind db now lease stage input payload fresh
    return db

/-- The state after a call; a call that raises leaves it as it was. -/
def State.after (s : State) (c : Call) : State :=
  match perform env s.registry s.db s.now c with
  | .ok db => { s with db }
  | .error _ => s

variable {env} in
/-- The state after a call that returns. -/
theorem State.after_of_ok {s : State} {c : Call} {db : Database} (h : perform env s.registry s.db s.now c = .ok db) :
    s.after env c = { s with db } := by
  unfold State.after
  rw [h]

variable {env} in
/-- The state after a call that raises. -/
theorem State.after_of_not_ok {s : State} {c : Call} (h : ∀ db, perform env s.registry s.db s.now c ≠ .ok db) : s.after env c = s := by
  unfold State.after
  split
  next db hperform => exact absurd hperform (h db)
  next => rfl

/-- Publications start with empty tables. -/
def system : System State Action where
  initial s := s.db = .empty
  step s action s' :=
    match action with
    | .advance later => s.now ≤ later ∧ s' = { s with now := later }
    | .register registry => s' = { s with registry }
    | .call c => s' = s.after env c

/-- The state after calls, one after the other. -/
def State.afterAll (s : State) (calls : List Call) : State := calls.foldl (fun s c => s.after env c) s

/-- Calls lead from a state to the state after them. -/
theorem run_afterAll (s : State) (calls : List Call) : (system env).Run s (s.afterAll env calls) := by
  induction calls generalizing s with
  | nil => exact .refl s
  | cons c calls ih => exact (System.Run.single (a := Action.call c) rfl).trans (ih (s.after env c))

/-! ### What the workflow keeps -/

section Workflows

variable {workflow workflow' : Workflow.Database} {now : Instant}

/-- The requests stay, and every request lives on. -/
structure Goes (now : Instant) (workflow workflow' : Workflow.Database) : Prop where
  coherent : Coherent workflow'
  lives : Lives now workflow workflow'
  requests : ∀ r ∈ workflow.requests.rows, r ∈ workflow'.requests.rows

/-- Tables that do not change go on. -/
theorem Goes.refl (hc : Coherent workflow) : Goes now workflow workflow :=
  ⟨hc, hc.advances_self.2, fun _ hr => hr⟩

/-- Tables go on in sequence. -/
theorem Goes.trans {workflow'' : Workflow.Database} (h : Goes now workflow workflow') (h' : Goes now workflow' workflow'') :
    Goes now workflow workflow'' :=
  ⟨h'.coherent, h.lives.trans h'.lives, fun r hr => h'.requests r (h.requests r hr)⟩

/-- Tables that advance and keep their requests go on. -/
theorem Goes.of_advances (h : Advances now workflow workflow') (hgrows : Workflow.Grows workflow workflow') : Goes now workflow workflow' :=
  ⟨h.1, h.2, hgrows.requests⟩

/-- The life of a settled request is over. -/
theorem analysis_of_run {s s' : Life} {a : Analysis} (hrun : lifeSystem.Run s s') (hs : s.analysis = some a)
    (hsettled : a.control.terminalOutcome ≠ none) : s'.analysis = some a := by
  refine hrun.keeps (P := fun s => s.analysis = some a) ?_ hs
  intro s action s' hs hstep
  cases hstep with
  | pass => exact hs
  | start => cases hs
  | note _ hopen | claim _ hopen | renew _ hopen | supersede _ _ _ _ _ _ hopen | settle _ _ _ hopen =>
    cases hs
    exact absurd hopen hsettled

/-- The result belongs to the last execution of a request that it settled. -/
def Settled (workflow : Workflow.Database) (s : ResultRow) : Prop :=
  ∃ a, Tracks workflow s.requestId (some a) ∧ a.control.terminalOutcome = some s.outcome ∧ a.last.id = s.executionId

/-- What a result belongs to stays. -/
theorem Settled.goes {s : ResultRow} (h : Settled workflow s) (hgoes : Goes now workflow workflow') : Settled workflow' s := by
  obtain ⟨a, htracks, hterminal, hlast⟩ := h
  obtain ⟨analysis', hrun, htracks'⟩ := hgoes.lives s.requestId (some a) htracks
  have hsame : analysis' = some a := analysis_of_run hrun rfl (by rw [hterminal]; exact Option.some_ne_none _)
  rw [hsame] at htracks'
  exact ⟨a, htracks', hterminal, hlast⟩

end Workflows

/-! ### What the tables of a kind refer to -/

/-- A projected row refers to a request that intends its context, and to a result of it. -/
def Store.Refers (store : Store) (workflow : Workflow.Database) (row : LatestRow) : Prop :=
  store.Intends workflow row.context row.latestRequestId row.latestRequestSequence ∧
    ∀ snapshot ∈ row.snapshot, store.Resulted workflow row.context snapshot.1 snapshot.2

/-- What the rows of the tables of a kind refer to. -/
structure Store.Sound (workflow : Workflow.Database) (store : Store) : Prop where
  reviews : ∀ v ∈ store.reviews.rows, ∃ manifest, jsonbIn env.limits v.manifestText = some manifest
  intents : ∀ i ∈ store.intents.rows, ∃ r ∈ workflow.requests.rows, ∃ v ∈ store.reviews.rows, r.id = i.requestId ∧ v.id = i.reviewId ∧
    ∃ row ∈ store.latest.rows, row.context = contextOf r v i.scopeId ∧ r.requestSequence ≤ row.latestRequestSequence
  inputs : ∀ i ∈ store.inputs.rows, (∃ r ∈ workflow.requests.rows, r.id = i.requestId ∧ r.trigger ∈ [.watchlistAdd, .manualRefresh]) ∧
    ∃ v ∈ store.reviews.rows, v.id = i.reviewId
  results : ∀ s ∈ store.results.rows, Settled workflow s ∧ ∃ i ∈ store.inputs.rows, i.id = s.inputSnapshotId ∧ i.requestId = s.requestId
  scenarios : ∀ x ∈ store.scenarios.rows, ∃ s ∈ store.results.rows, s.id = x.runId
  sensitivities : ∀ x ∈ store.sensitivities.rows, ∃ s ∈ store.results.rows, s.id = x.runId
  conclusions : ∀ x ∈ store.conclusions.rows, ∃ s ∈ store.results.rows, s.id = x.runId
  latest : ∀ row ∈ store.latest.rows, store.Refers workflow row

section Stores

variable {env : Environment} {workflow workflow' : Workflow.Database} {store store' : Store} {now : Instant} {context : Context}
  {request result : Uuid} {sequence : ℕ}

/-- What is intended stays so when rows are added. -/
theorem Store.Intends.mono (h : store.Intends workflow context request sequence)
    (hrequests : ∀ r ∈ workflow.requests.rows, r ∈ workflow'.requests.rows) (hintents : ∀ i ∈ store.intents.rows, i ∈ store'.intents.rows)
    (hreviews : ∀ v ∈ store.reviews.rows, v ∈ store'.reviews.rows) : store'.Intends workflow' context request sequence := by
  obtain ⟨r, hr, i, hi, v, hv, hrest⟩ := h
  exact ⟨r, hrequests r hr, i, hintents i hi, v, hreviews v hv, hrest⟩

/-- What resulted stays so when rows are added. -/
theorem Store.Resulted.mono (h : store.Resulted workflow context result sequence)
    (hresults : ∀ s ∈ store.results.rows, s ∈ store'.results.rows) (hrequests : ∀ r ∈ workflow.requests.rows, r ∈ workflow'.requests.rows)
    (hinputs : ∀ i ∈ store.inputs.rows, i ∈ store'.inputs.rows) (hreviews : ∀ v ∈ store.reviews.rows, v ∈ store'.reviews.rows) :
    store'.Resulted workflow' context result sequence := by
  obtain ⟨s, hs, r, hr, i, hi, v, hv, hrest⟩ := h
  exact ⟨s, hresults s hs, r, hrequests r hr, i, hinputs i hi, v, hreviews v hv, hrest⟩

/-- What a projected row refers to stays so when rows are added. -/
theorem Store.Refers.mono {row : LatestRow} (h : store.Refers workflow row) (hresults : ∀ s ∈ store.results.rows, s ∈ store'.results.rows)
    (hrequests : ∀ r ∈ workflow.requests.rows, r ∈ workflow'.requests.rows) (hintents : ∀ i ∈ store.intents.rows, i ∈ store'.intents.rows)
    (hinputs : ∀ i ∈ store.inputs.rows, i ∈ store'.inputs.rows) (hreviews : ∀ v ∈ store.reviews.rows, v ∈ store'.reviews.rows) :
    store'.Refers workflow' row :=
  ⟨h.1.mono hrequests hintents hreviews, fun snapshot hsnapshot => (h.2 snapshot hsnapshot).mono hresults hrequests hinputs hreviews⟩

/-- The tables of a kind refer to what they did when the workflow goes on. -/
theorem Store.Sound.goes (h : store.Sound env workflow) (hgoes : Goes now workflow workflow') : store.Sound env workflow' where
  reviews := h.reviews
  intents i hi := by
    obtain ⟨r, hr, v, hv, hprojected⟩ := h.intents i hi
    exact ⟨r, hgoes.requests r hr, v, hv, hprojected⟩
  inputs i hi := by
    obtain ⟨⟨r, hr, hid⟩, hreview⟩ := h.inputs i hi
    exact ⟨⟨r, hgoes.requests r hr, hid⟩, hreview⟩
  results s hs := ⟨(h.results s hs).1.goes hgoes, (h.results s hs).2⟩
  scenarios := h.scenarios
  sensitivities := h.sensitivities
  conclusions := h.conclusions
  latest row hrow := (h.latest row hrow).mono (fun _ hs => hs) hgoes.requests (fun _ hi => hi) (fun _ hi => hi) fun _ hv => hv

/-- Empty tables refer to nothing. -/
theorem Store.sound_empty : Store.empty.Sound env workflow where
  reviews := nofun
  intents := nofun
  inputs := nofun
  results := nofun
  scenarios := nofun
  sensitivities := nofun
  conclusions := nofun
  latest := nofun

end Stores

end EquityEval.Publication
