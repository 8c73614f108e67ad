import EquityEval.Publication.Children
import EquityEval.Publication.Projection
import EquityEval.Publication.System
import EquityEval.Workflow.Completion

/-!
# What calls do to the tables of results

Every call that returns lets the workflow go on and changes the tables of a kind in one of a few ways:
it leaves them alone, adds a review, an intent or an input, or publishes a result. What the tables refer
to stays there with each of these changes.
-/

namespace EquityEval.Publication

open Relational Text
open Fundamentals (Jsonb jsonbIn fundamentalsCanonical)
open Workflow (Uuid Instant Lease Outcome SqlError Execution AnalysisRequest Registry FreshIds RequestResult Tracks Coherent
  workflowLockedLease workflowEnqueue workflowFinishStage workflowFinish)

/-- The row of a request that is projected. -/
def requestRow (r : AnalysisRequest) (v : Review) (scope : Uuid) : LatestRow where
  context := contextOf r v scope
  latestRequestId := r.id
  latestRequestSequence := r.requestSequence

/-- The changes that a call can make to the tables of a kind. -/
inductive Store.Change (env : Environment) (workflow : Workflow.Database) (store : Store) : Store → Prop
  | keep : Change env workflow store store
  | review (v : Review) (manifest : Jsonb) {reviews} (hmanifest : jsonbIn env.limits v.manifestText = some manifest)
      (hreviews : reviews.rows = store.reviews.rows ++ [v]) : Change env workflow store { store with reviews }
  | intend (i : Intent) (r : AnalysisRequest) (v : Review) {intents latest} (hr : r ∈ workflow.requests.rows) (hv : v ∈ store.reviews.rows)
      (hrequest : r.id = i.requestId) (hreview : v.id = i.reviewId) (hintents : intents.rows = store.intents.rows ++ [i])
      (hlatest : Advanced (requestRow r v i.scopeId) store.latest latest) : Change env workflow store { store with intents, latest }
  | freeze (i : InputSnapshot) (r : AnalysisRequest) (v : Review) {inputs latest} (hr : r ∈ workflow.requests.rows)
      (hv : v ∈ store.reviews.rows) (htrigger : r.trigger ∈ [.watchlistAdd, .manualRefresh]) (hrequest : r.id = i.requestId)
      (hreview : v.id = i.reviewId) (hinputs : inputs.rows = store.inputs.rows ++ [i])
      (hintends : store.Intends workflow (contextOf r v i.scopeId) r.id r.requestSequence)
      (hlatest : Advanced (requestRow r v i.scopeId) store.latest latest) : Change env workflow store { store with inputs, latest }
  | publish (s : ResultRow) (r : AnalysisRequest) (i : InputSnapshot) (v : Review)
      {payloads results scenarios sensitivities conclusions latest} (hr : r ∈ workflow.requests.rows) (hi : i ∈ store.inputs.rows)
      (hv : v ∈ store.reviews.rows) (hrequest : r.id = s.requestId) (hinput : i.id = s.inputSnapshotId) (hown : i.requestId = r.id)
      (hreview : v.id = i.reviewId) (hsettled : Settled workflow s) (hresults : results.rows = store.results.rows ++ [s])
      (hpayloads : ∀ row ∈ store.payloads.rows, row ∈ payloads.rows)
      (hscenarios : ∀ x ∈ scenarios.rows, x ∈ store.scenarios.rows ∨ x.runId = s.id)
      (hsensitivities : ∀ x ∈ sensitivities.rows, x ∈ store.sensitivities.rows ∨ x.runId = s.id)
      (hconclusions : ∀ x ∈ conclusions.rows, x ∈ store.conclusions.rows ∨ x.runId = s.id)
      (hlatest : Published (contextOf r v i.scopeId) r.requestSequence s.id store.latest latest) :
      Change env workflow store { store with payloads, results, scenarios, sensitivities, conclusions, latest }

variable {env : Environment} {kind : Kind} {db db' : Database} {now : Instant} {lease : Lease}

/-! ### Calls -/

/-- The tables of one kind change, and the workflow goes on. -/
structure Changes (env : Environment) (now : Instant) (db db' : Database) : Prop where
  goes : Goes now db.workflow db'.workflow
  stores : ∀ kind, (db.store kind).Change env db'.workflow (db'.store kind)

/-- The tables of one kind change. -/
theorem Changes.withStore (workflow : Workflow.Database) (hgoes : Goes now db.workflow workflow) {store : Store}
    (h : (db.store kind).Change env workflow store) : Changes env now db ({ db with workflow }.withStore kind store) where
  goes := by
    rw [Database.workflow_withStore]
    exact hgoes
  stores kind' := by
    rw [Database.workflow_withStore]
    by_cases hkind : kind' = kind
    · rw [hkind, Database.store_withStore]
      exact h
    · rw [Database.store_withStore_of_ne hkind, Database.store_workflow]
      exact .keep

/-- No tables of results change. -/
theorem Changes.workflow {workflow : Workflow.Database} (hgoes : Goes now db.workflow workflow) :
    Changes env now db { db with workflow } where
  goes := hgoes
  stores kind := by
    rw [Database.store_workflow]
    exact .keep

/-- Nothing changes. -/
theorem Changes.refl (hc : Coherent db.workflow) : Changes env now db db := .workflow (.refl hc)

/-- A stored review parses. -/
theorem insertReview_changes (hc : Coherent db.workflow) {v : Review} {evidenced : Bool}
    (h : insertReview env db kind v evidenced = .ok db') : Changes env now db db' := by
  simp only [insertReview, bind_eq_ok, orRaise_eq_ok, pure_eq_ok] at h
  obtain ⟨manifest, hmanifest, _, -, _, -, _, -, _, -, _, -, reviews, hinsert, rfl⟩ := h
  exact .withStore db.workflow (.refl hc) (.review v manifest hmanifest (Table.insert_eq_ok hinsert))

/-- An intent is recorded with its projection. -/
theorem recordIntent_changes (hc : Coherent db.workflow) {r : AnalysisRequest} {v : Review} (hr : r ∈ db.workflow.requests.rows)
    (hv : v ∈ (db.store kind).reviews.rows) (h : recordIntent db kind r v = .ok db') : Changes env now db db' := by
  simp only [recordIntent, bind_eq_ok, pure_eq_ok] at h
  obtain ⟨_, -, membership, -, intents, hinsert, store, hproject, rfl⟩ := h
  obtain ⟨-, latest, rfl, hlatest⟩ := Store.project_eq_ok hproject
  exact .withStore db.workflow (.refl hc) (.intend _ r v hr hv rfl rfl (Table.insert_eq_ok hinsert) hlatest)

/-- Enqueueing changes the tables in one of the listed ways. -/
theorem enqueue_changes (hc : Coherent db.workflow) {registry : Registry} {a : PublicationArguments} {ids : FreshIds}
    {result : Option RequestResult} (h : enqueue env kind registry db now a ids = .ok (db', result)) : Changes env now db db' := by
  simp only [enqueue, bind_eq_ok, orRaise_eq_ok] at h
  obtain ⟨v, hv, _, -, _, -, manifest, -, selector, -, ⟨workflow, requested⟩, henqueue, r, hr, h⟩ := h
  have hgoes : Goes now db.workflow workflow :=
    .of_advances (Workflow.workflowEnqueue_advances hc henqueue) (Workflow.workflowEnqueue_change henqueue).grows
  split at h
  next previous =>
    obtain ⟨_, -, hreturn⟩ := bind_eq_ok.mp h
    cases hreturn
    exact .workflow hgoes
  next =>
    obtain ⟨db₁, hrecord, hreturn⟩ := bind_eq_ok.mp h
    cases hreturn
    obtain ⟨answer, -, hfound⟩ := Option.bind_eq_some_iff.mp hr
    have hmem : v ∈ ({ db with workflow }.store kind).reviews.rows := by
      rw [Database.store_workflow]
      exact (Table.lookup_eq_some hv).1
    have hchanges : Changes env now { db with workflow } db' :=
      recordIntent_changes hgoes.coherent (Table.lookup_eq_some hfound).1 hmem hrecord
    refine ⟨hgoes.trans hchanges.goes, fun kind' => ?_⟩
    have hstore := hchanges.stores kind'
    rwa [Database.store_workflow] at hstore

/-- Freezing changes the tables in one of the listed ways. -/
theorem freeze_changes (hc : Coherent db.workflow) {stage review fresh id : Uuid}
    (h : freeze env kind db now lease stage review fresh = .ok (db', id)) : Changes env now db db' := by
  simp only [freeze, bind_eq_ok, orRaise_eq_ok, raiseIf_eq_ok, not_or] at h
  obtain ⟨e, -, r, hr, v, hv, _, ⟨htrigger, -⟩, _, -, _, -, manifest, -, _, -, membership, -, h⟩ := h
  split at h
  next i =>
    obtain ⟨_, -, hreturn⟩ := bind_eq_ok.mp h
    cases hreturn
    exact .refl hc
  next =>
    simp only [bind_eq_ok] at h
    obtain ⟨inputs, hinsert, store, hproject, hreturn⟩ := h
    cases hreturn
    obtain ⟨hintends, latest, rfl, hlatest⟩ := Store.project_eq_ok hproject
    exact .withStore db.workflow (.refl hc) (.freeze _ r v (Table.lookup_eq_some hr).1 (Table.lookup_eq_some hv).1
      (not_not.mp htrigger) rfl rfl (Table.insert_eq_ok hinsert) hintends hlatest)

/-! ### Publishing -/

section Publishing

variable {store store' : Store} {p manifest : Jsonb} {run : Uuid}

/-- The tables with a result, its payload and its children. -/
structure Saved (store store' : Store) (s : ResultRow) : Prop where
  results : store'.results.rows = store.results.rows ++ [s]
  payloads : ∀ row ∈ store.payloads.rows, row ∈ store'.payloads.rows
  scenarios : ∀ x ∈ store'.scenarios.rows, x ∈ store.scenarios.rows ∨ x.runId = s.id
  sensitivities : ∀ x ∈ store'.sensitivities.rows, x ∈ store.sensitivities.rows ∨ x.runId = s.id
  conclusions : ∀ x ∈ store'.conclusions.rows, x ∈ store.conclusions.rows ∨ x.runId = s.id
  rest : store' = { store with
    payloads := store'.payloads, results := store'.results, scenarios := store'.scenarios, sensitivities := store'.sensitivities,
    conclusions := store'.conclusions }

/-- Stored payloads stay, and no other table changes. -/
theorem Store.savePayload_eq_ok {row : PayloadRow} (h : store.savePayload kind row p = .ok store') :
    payloadChecked kind p ∧ ∃ payloads, store' = { store with payloads } ∧ ∀ row ∈ store.payloads.rows, row ∈ payloads.rows := by
  unfold Store.savePayload at h
  obtain ⟨_, hchecked, h⟩ := bind_eq_ok.mp h
  refine ⟨not_not.mp (raiseIf_eq_ok.mp hchecked), ?_⟩
  split at h
  · exact ⟨store.payloads, (pure_eq_ok.mp h).symm, fun _ hrow => hrow⟩
  · obtain ⟨payloads, hinsert, hreturn⟩ := bind_eq_ok.mp h
    refine ⟨payloads, (pure_eq_ok.mp hreturn).symm, fun row hrow => ?_⟩
    rw [Table.insert_eq_ok hinsert]
    exact List.mem_append_left _ hrow

/-- A row of a list and what was added to it with a run. -/
theorem mem_or_run {ρ : Type} {rows rows' : List ρ} {items : List Jsonb} {f : Jsonb × ℕ → ρ} {run? : ρ → Uuid}
    (hrows : rows' = rows ++ (numbered items).map f) (hrun : ∀ entry, run? (f entry) = run) : ∀ x ∈ rows', x ∈ rows ∨ run? x = run := by
  intro x hx
  rw [hrows] at hx
  rcases List.mem_append.mp hx with hold | hnew
  · exact Or.inl hold
  · obtain ⟨entry, -, rfl⟩ := List.mem_map.mp hnew
    exact Or.inr (hrun entry)

/-- The children that a result saves have its run. -/
theorem Store.saveEntries_eq_ok (hp : (fundamentalsCanonical p).isSome) (hnone : store.Childless run)
    (h : store.saveEntries kind p run = .ok store') : store' = { store with
      scenarios := store'.scenarios, sensitivities := store'.sensitivities, conclusions := store'.conclusions } ∧
      (∀ x ∈ store'.scenarios.rows, x ∈ store.scenarios.rows ∨ x.runId = run) ∧
      (∀ x ∈ store'.sensitivities.rows, x ∈ store.sensitivities.rows ∨ x.runId = run) ∧
      ∀ x ∈ store'.conclusions.rows, x ∈ store.conclusions.rows ∨ x.runId = run := by
  cases kind with
  | fundamentals =>
    cases h
    exact ⟨rfl, fun _ hx => Or.inl hx, fun _ hx => Or.inl hx, fun _ hx => Or.inl hx⟩
  | valuation =>
    obtain ⟨-, hchildren, hstore⟩ := (Store.saveChildren_eq_ok hp hnone).mp h
    exact ⟨hstore, mem_or_run hchildren.scenarios fun _ => rfl, mem_or_run hchildren.sensitivities fun _ => rfl,
      mem_or_run hchildren.conclusions fun _ => rfl⟩

/-- A run that is no result's has no children. -/
theorem Store.Sound.childless {workflow : Workflow.Database} (h : store.Sound env workflow) (hrun : ∀ s ∈ store.results.rows, s.id ≠ run) :
    store.Childless run where
  scenarios x hx := by
    obtain ⟨s, hs, hid⟩ := h.scenarios x hx
    exact hid ▸ hrun s hs
  sensitivities x hx := by
    obtain ⟨s, hs, hid⟩ := h.sensitivities x hx
    exact hid ▸ hrun s hs
  conclusions x hx := by
    obtain ⟨s, hs, hid⟩ := h.conclusions x hx
    exact hid ▸ hrun s hs

/-- A result is saved with the identifiers of what it was computed for. -/
theorem saveResult_eq_ok {stage fresh : Uuid} {payload : List CodePoint} {e : Execution} {r : AnalysisRequest} {i : InputSnapshot} {v : Review}
    {outcome : Outcome} (hsound : (db.store kind).Sound env db.workflow) (hp : (fundamentalsCanonical p).isSome)
    (h : saveResult env kind db lease stage payload fresh e r i v p manifest = .ok (store', outcome)) :
    ∃ s : ResultRow, Saved (db.store kind) store' s ∧ s.id = fresh ∧ s.requestId = r.id ∧ s.executionId = e.id ∧ s.inputSnapshotId = i.id ∧
      s.payloadHash = env.digest payload ∧ s.leaseIdentity = lease ∧ s.stageId = stage ∧ s.outcome = outcome ∧
      ∃ gapped, gaps kind p manifest (db.workflow.stagesOf e.id) = .ok gapped ∧ outcome = outcomeOf gapped := by
  simp only [saveResult, bind_eq_ok, pure_eq_ok] at h
  obtain ⟨paid, hsave, _, -, gapped, hgaps, results, hinsert, full, hentries, hreturn⟩ := h
  cases hreturn
  obtain ⟨-, payloads, rfl, hpayloads⟩ := Store.savePayload_eq_ok hsave
  have hrows := Table.insert_eq_ok hinsert
  have hfresh : ∀ s ∈ (db.store kind).results.rows, s.id ≠ fresh := by
    intro s hs hid
    have hunique := results.valid.1
    rw [hrows, UniqueBy, List.map_append, List.nodup_append] at hunique
    exact hunique.2.2 _ (List.mem_map_of_mem hs) _ (List.mem_map_of_mem (List.mem_singleton_self _)) hid
  have hnone := hsound.childless hfresh
  have hnone' : ({ db.store kind with payloads, results } : Store).Childless fresh :=
    ⟨hnone.scenarios, hnone.sensitivities, hnone.conclusions⟩
  obtain ⟨hstore, hscenarios, hsensitivities, hconclusions⟩ := Store.saveEntries_eq_ok hp hnone' hentries
  have hresults' : store'.results = results := by rw [hstore]
  have hpayloads' : store'.payloads = payloads := by rw [hstore]
  refine ⟨_, ⟨by rw [hresults']; exact hrows, ?_, hscenarios, hsensitivities, hconclusions, ?_⟩, rfl, rfl, rfl, rfl, rfl, rfl, rfl, rfl,
    gapped, hgaps, rfl⟩
  · rw [hpayloads']
    exact hpayloads
  · rw [hresults', hpayloads']
    exact hstore

/-- What a new publication has done: the tables where its result was saved, and the projection. -/
structure NewResult (env : Environment) (kind : Kind) (db db' : Database) (now : Instant) (lease : Lease) (stage input : Uuid)
    (payload : List CodePoint) (r : AnalysisRequest) (i : InputSnapshot) (v : Review) (s : ResultRow) (saved : Store)
    (latest : Table LatestRow LatestValid) : Prop where
  requested : r ∈ db.workflow.requests.rows ∧ r.id = lease.requestId
  frozen : i ∈ (db.store kind).inputs.rows ∧ i.id = input ∧ i.requestId = r.id
  reviewed : v ∈ (db.store kind).reviews.rows ∧ v.id = i.reviewId
  identity : s.requestId = r.id ∧ s.inputSnapshotId = i.id ∧ s.payloadHash = env.digest payload ∧ s.leaseIdentity = lease ∧ s.stageId = stage
  rows : Saved (db.store kind) saved s
  goes : Goes now db.workflow db'.workflow
  settled : Settled db'.workflow s
  projected : Published (contextOf r v i.scopeId) r.requestSequence s.id (db.store kind).latest latest
  tables : db' = { db with workflow := db'.workflow }.withStore kind { saved with latest }

/-- A publication replays the result of its request, or saves a new one. -/
theorem publish_eq_ok (hc : Coherent db.workflow) (hsound : (db.store kind).Sound env db.workflow) {stage input fresh id : Uuid}
    {payload : List CodePoint} (h : publish env kind db now lease stage input payload fresh = .ok (db', id)) :
    (∃ p, jsonbIn env.limits payload = some p) ∧
      ((∃ old, (db.store kind).resultOf? lease.requestId = some old ∧ db' = db ∧ replay old lease stage input (env.digest payload) = .ok id) ∨
        (db.store kind).resultOf? lease.requestId = none ∧
          ∃ r i v s saved latest, s.id = id ∧ NewResult env kind db db' now lease stage input payload r i v s saved latest) := by
  unfold publish at h
  obtain ⟨p, hp, h⟩ := bind_eq_ok.mp h
  refine ⟨⟨p, orRaise_eq_ok.mp hp⟩, ?_⟩
  split at h
  next old hold =>
    obtain ⟨answer, hreplay, hreturn⟩ := bind_eq_ok.mp h
    cases hreturn
    exact Or.inl ⟨old, hold, rfl, hreplay⟩
  next hnone =>
    simp only [bind_eq_ok, orRaise_eq_ok, raiseIf_eq_ok, not_or, not_not] at h
    obtain ⟨e, hlease, r, hr, i, hi, v, hv, _, -, _, -, manifest, -, _, ⟨hcanonical, -⟩, ⟨store, outcome⟩, hsave, ⟨db₁, _⟩, hstage,
      ⟨db₂, _⟩, hfinish, store', hproject, _, -, hreturn⟩ := h
    cases hreturn
    obtain ⟨hr, hrequest⟩ := Table.lookup_eq_some hr
    obtain ⟨hexecution, hleased⟩ := hc.leased hlease
    have hown := List.find?_some hi
    rw [decide_eq_true_eq] at hown
    obtain ⟨s, hsaved, rfl, hsrequest, hsexecution, hsinput, hhash, hidentity, hsstage, hsoutcome, -⟩ :=
      saveResult_eq_ok hsound (by rw [hcanonical]; rfl) hsave
    have hadvances := Workflow.workflowFinishStage_advances hc hstage
    have hadvances' := Workflow.workflowFinish_advances hadvances.1 hfinish
    have hsame := (Workflow.SameIntent.workflowFinishStage hstage).trans (.workflowFinish hfinish)
    have hrequests : ∀ r ∈ db.workflow.requests.rows, r ∈ db₂.requests.rows := by
      rw [hsame.requests]
      exact fun _ hr => hr
    have hsettled : Settled db₂ s := by
      obtain ⟨a, htracks, hterminal, hlast⟩ := Workflow.workflowFinish_settles hadvances.1 hfinish
      refine ⟨a, ?_, hsoutcome ▸ hterminal, hlast.trans (hexecution.symm.trans hsexecution.symm)⟩
      rw [hsrequest, hrequest, hleased]
      exact htracks
    obtain ⟨latest, rfl, hlatest⟩ := Store.projectResult_eq_ok hproject
    rw [hsaved.rest] at hlatest
    refine Or.inr ⟨hnone, r, i, v, s, store, latest, rfl, ⟨hr, hrequest.trans hleased⟩, ⟨List.mem_of_find?_eq_some hi, hown⟩,
      Table.lookup_eq_some hv, ⟨hsrequest, hsinput, hhash, hidentity, hsstage⟩, hsaved, ?_, ?_, hlatest, ?_⟩
    · rw [Database.workflow_withStore]
      exact ⟨hadvances'.1, hadvances.2.trans hadvances'.2, hrequests⟩
    · rw [Database.workflow_withStore]
      exact hsettled
    · rw [Database.workflow_withStore]

/-- The tables of a kind after a new publication. -/
theorem NewResult.store_eq {stage input : Uuid} {payload : List CodePoint} {r : AnalysisRequest} {i : InputSnapshot} {v : Review} {s : ResultRow}
    {saved : Store} {latest : Table LatestRow LatestValid}
    (h : NewResult env kind db db' now lease stage input payload r i v s saved latest) : db'.store kind = { saved with latest } := by
  rw [h.tables, Database.store_withStore]

/-- Publishing changes the tables in one of the listed ways. -/
theorem publish_changes (hc : Coherent db.workflow) (hsound : (db.store kind).Sound env db.workflow) {stage input fresh id : Uuid}
    {payload : List CodePoint} (h : publish env kind db now lease stage input payload fresh = .ok (db', id)) : Changes env now db db' := by
  obtain ⟨-, ⟨old, -, rfl, -⟩ | ⟨-, r, i, v, s, saved, latest, -, hnew⟩⟩ := publish_eq_ok hc hsound h
  · exact .refl hc
  · rw [hnew.tables]
    refine .withStore _ hnew.goes ?_
    have hsaved := hnew.rows
    rw [hsaved.rest]
    exact .publish s r i v (hnew.goes.requests r hnew.requested.1) hnew.frozen.1 hnew.reviewed.1 hnew.identity.1.symm hnew.identity.2.1.symm
      hnew.frozen.2.2 hnew.reviewed.2 hnew.settled hsaved.results hsaved.payloads hsaved.scenarios hsaved.sensitivities hsaved.conclusions
      hnew.projected

end Publishing

end EquityEval.Publication
