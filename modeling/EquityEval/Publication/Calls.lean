import EquityEval.Publication.Store

/-!
# Enqueueing, freezing and publishing

A kind of result has three functions. Enqueueing records which review a request intends, freezing
fixes the input of the request, and publishing stores the reviewed payload with the result, ends the
stage and finishes the execution. The locks that the functions take make each call one step. The
event of a publication, which is always accepted, is left out.
-/

namespace EquityEval.Publication

open Relational Text
open Fundamentals (Jsonb DatabaseLimits jsonbIn fundamentalsCanonical)
open Workflow (Uuid Instant Lease Outcome SqlError SqlState Execution AnalysisRequest StageAttempt Membership Registry
  EnqueueOptions EnqueueArguments FreshIds RequestParameters RequestResult violates workflowLockedLease
  workflowEnqueue workflowFinishStage workflowFinish)

/-- What the functions read of the hashes, of the texts of identifiers and selectors, and of the registered securities. -/
structure Environment where
  digest : List CodePoint → String
  limits : DatabaseLimits
  parametersHash : RequestParameters → String
  uuidText : Uuid → List CodePoint
  issuedBy : Uuid → Uuid → Bool
  selection : Jsonb → Option ℤ → EnqueueOptions
  selected : AnalysisRequest → Jsonb → Bool

/-- A raised check. -/
def refused (message : String) : SqlError := ⟨.checkViolation, message⟩

/-- A raised condition of the state. -/
def unready (message : String) : SqlError := ⟨.objectNotInPrerequisiteState, message⟩

/-! ### Contexts -/

/-- The membership of a request, or that of the closest request that it descends from. -/
def lineageMembership (workflow : Workflow.Database) : ℕ → Uuid → Option Uuid
  | 0, _ => none
  | fuel + 1, id =>
    (workflow.request? id).bind fun r =>
      match r.membershipId with
      | some membership => some membership
      | none => r.parentRequestId.bind (lineageMembership workflow fuel)

/-- The scope of a context. -/
def scopeOf (membership : Option Uuid) : Uuid := membership.getD 0

/-- The membership of a request, which has to be eligible. -/
def requestMembership (workflow : Workflow.Database) (r : AnalysisRequest) : Except SqlError (Option Membership) :=
  match lineageMembership workflow workflow.requests.rows.length r.id with
  | none => return none
  | some id => do
    let m ← orRaise (workflow.membership? id) (violates "watchlist_memberships")
    raiseIf (m.removedAt ≠ none ∨ m.securityId ≠ r.securityId ∨ some m.quoteIdentifierId ≠ r.quoteIdentifierId)
      (unready "membership no longer eligible")
    return some m

/-- The context of a request. -/
def contextOf (r : AnalysisRequest) (v : Review) (scope : Uuid) : Context := (r.workspaceId, r.securityId, v.compatibilityHash, scope)

/-- The request, the intent and the review of a projected request. -/
def Store.Intends (store : Store) (workflow : Workflow.Database) (context : Context) (request : Uuid) (sequence : ℕ) : Prop :=
  ∃ r ∈ workflow.requests.rows, ∃ i ∈ store.intents.rows, ∃ v ∈ store.reviews.rows, i.requestId = r.id ∧ v.id = i.reviewId ∧
    r.id = request ∧ r.requestSequence = sequence ∧ context = contextOf r v i.scopeId

/-- The request, the input and the review of a projected result. -/
def Store.Resulted (store : Store) (workflow : Workflow.Database) (context : Context) (result : Uuid) (sequence : ℕ) : Prop :=
  ∃ s ∈ store.results.rows, ∃ r ∈ workflow.requests.rows, ∃ i ∈ store.inputs.rows, ∃ v ∈ store.reviews.rows, r.id = s.requestId ∧
    i.id = s.inputSnapshotId ∧ v.id = i.reviewId ∧ s.id = result ∧ r.requestSequence = sequence ∧
      context = contextOf r v i.scopeId

instance (store : Store) (workflow : Workflow.Database) (context : Context) (request : Uuid) (sequence : ℕ) :
    Decidable (store.Intends workflow context request sequence) := by
  unfold Store.Intends
  infer_instance

instance (store : Store) (workflow : Workflow.Database) (context : Context) (result : Uuid) (sequence : ℕ) :
    Decidable (store.Resulted workflow context result sequence) := by
  unfold Store.Resulted
  infer_instance

/-- A projection goes back. -/
def LatestRow.Regresses (old new : LatestRow) : Prop :=
  new.latestRequestSequence < old.latestRequestSequence ∨
    (∃ snapshot ∈ old.snapshot, ∀ later ∈ new.snapshot, later.2 < snapshot.2) ∨ new.context ≠ old.context

instance (old new : LatestRow) : Decidable (old.Regresses new) := inferInstanceAs (Decidable (_ ∨ _ ∨ _))

/-- The trigger of a projection. -/
def Store.latestGuard (store : Store) (workflow : Workflow.Database) (old : Option LatestRow) (row : LatestRow) : Except SqlError Unit := do
  raiseIf (¬ store.Intends workflow row.context row.latestRequestId row.latestRequestSequence) (refused "latest request context mismatch")
  raiseIf (∃ snapshot ∈ row.snapshot, ¬ store.Resulted workflow row.context snapshot.1 snapshot.2)
    (refused "latest snapshot context mismatch")
  raiseIf (∃ before ∈ old, before.Regresses row) (unready "latest projection cannot regress")

/-- Project a request, unless a later one is projected. -/
def Store.project (store : Store) (workflow : Workflow.Database) (context : Context) (request : Uuid) (sequence : ℕ) :
    Except SqlError Store := do
  let row : LatestRow := { context, latestRequestId := request, latestRequestSequence := sequence }
  store.latestGuard workflow none row
  match store.latest.lookup LatestRow.context context with
  | none =>
    let latest ← store.latest.insert row (violates "latest")
    return { store with latest }
  | some old =>
    if old.latestRequestSequence < sequence then
      let later : LatestRow := { old with latestRequestId := request, latestRequestSequence := sequence }
      store.latestGuard workflow (some old) later
      let latest ← store.latest.update (·.context = context) (fun _ => later) (violates "latest")
      return { store with latest }
    else return store

/-! ### Reviews -/

variable (env : Environment)

/-- Store a review; `evidenced` answers its other checks, those of its children and its triggers. -/
def insertReview (db : Database) (kind : Kind) (v : Review) (evidenced : Bool) : Except SqlError Database := do
  let manifest ← orRaise (jsonbIn env.limits v.manifestText) (refused "manifest")
  raiseIf (fundamentalsCanonical manifest ≠ some v.manifestText ∨ v.manifestHash ≠ env.digest v.manifestText) (violates "reviews")
  let selector ← orRaise ((member "selector" manifest).bind fundamentalsCanonical) (violates "reviews")
  raiseIf (v.compatibilityHash ≠ if kind = .valuation then v.manifestHash else env.digest selector) (violates "reviews")
  raiseIf (v.sourceSnapshotId.isSome ≠ decide (kind = .valuation) ∨
    ∃ source ∈ v.sourceSnapshotId, ¬ ∃ s ∈ db.fundamentals.results.rows, s.id = source) (violates "reviews")
  raiseIf (evidenced = false) (refused "review evidence")
  let reviews ← (db.store kind).reviews.insert v (violates "reviews")
  return db.withStore kind { db.store kind with reviews }

/-! ### Enqueueing -/

/-- The arguments of `fundamentals_enqueue` and `valuation_enqueue`. -/
structure PublicationArguments where
  workspace : Option Uuid
  watchlist : Option Uuid
  review : Uuid
  key : String
  parent : Option Uuid
  attempts : Option ℤ
deriving DecidableEq, Repr

/-- The request that a valuation descends from has a saved result. -/
def savedParent (db : Database) (v : Review) (a : PublicationArguments) : Prop :=
  a.watchlist = none ∧ ∃ parent ∈ a.parent, ∃ r ∈ db.workflow.requests.rows, r.id = parent ∧ some r.workspaceId = a.workspace ∧
    r.securityId = v.securityId ∧ r.quoteIdentifierId = some v.quoteIdentifierId ∧
      ((∃ s ∈ db.fundamentals.results.rows, some s.id = v.sourceSnapshotId ∧ s.requestId = r.id) ∨
        ∃ s ∈ db.valuation.results.rows, s.requestId = r.id)

instance (db : Database) (v : Review) (a : PublicationArguments) : Decidable (savedParent db v a) := by
  unfold savedParent
  infer_instance

/-- The request that a review is enqueued as. -/
def PublicationArguments.enqueue (a : PublicationArguments) (v : Review) (selector : Jsonb) : EnqueueArguments where
  workspace := if a.watchlist = none then a.workspace else none
  watchlist := a.watchlist
  security := v.securityId
  quote := v.quoteIdentifierId
  key := a.key
  options := env.selection selector a.attempts
  trigger := if a.watchlist = none then .manualRefresh else .watchlistAdd
  parent := a.parent

/-- Record what a request intends, and project it. -/
def recordIntent (db : Database) (kind : Kind) (r : AnalysisRequest) (v : Review) : Except SqlError Database := do
  raiseIf (∃ e ∈ db.workflow.executions.rows, e.requestId = r.id ∧ (e.attemptNo ≠ 1 ∨ e.state ≠ .queued))
    (unready "request has already started without intent")
  let membership ← requestMembership db.workflow r
  let scope := scopeOf (membership.map (·.id))
  let intents ← (db.store kind).intents.insert ⟨r.id, v.id, membership.map (·.id), membership.map (·.generation), scope⟩
    (violates "request_intents")
  let store ← { db.store kind with intents }.project db.workflow (contextOf r v scope) r.id
    r.requestSequence
  return db.withStore kind store

/-- `fundamentals_enqueue` and `valuation_enqueue`. -/
def enqueue (kind : Kind) (registry : Registry) (db : Database) (now : Instant) (a : PublicationArguments) (ids : FreshIds) :
    Except SqlError (Database × Option RequestResult) := do
  let v ← orRaise ((db.store kind).review? a.review) (refused "review workspace mismatch")
  raiseIf (some v.workspaceId ≠ a.workspace ∨
    ∃ id ∈ a.watchlist, ¬ ∃ w ∈ db.workflow.watchlists.rows, w.id = id ∧ some w.workspaceId = a.workspace)
    (refused "review workspace mismatch")
  raiseIf (kind = .valuation ∧ ¬ savedParent db v a) (refused "saved fundamentals or valuation parent required")
  let manifest ← orRaise (jsonbIn env.limits v.manifestText) (refused "manifest")
  let selector ← orRaise (member "selector" manifest) (refused "selector")
  let (workflow, result) ← workflowEnqueue env.parametersHash registry db.workflow now (a.enqueue env v selector) ids
  let db := { db with workflow }
  let r ← orRaise (result.bind fun result => workflow.request? result.requestId) (violates "analysis_requests")
  match (db.store kind).intent? r.id with
  | some previous =>
    raiseIf (previous.reviewId ≠ v.id) ⟨if kind = .valuation then .constraintViolation else .checkViolation,
      "idempotent request has different review intent"⟩
    return (db, result)
  | none =>
    let db ← recordIntent db kind r v
    return (db, result)

/-! ### Freezing -/

/-- The key of the stage that publishes. -/
def Kind.stageKey : Kind → String
  | .fundamentals => "fundamentals"
  | .valuation => "valuation"

/-- `fundamentals_freeze` and `valuation_freeze`. -/
def freeze (kind : Kind) (db : Database) (now : Instant) (lease : Lease) (stage review fresh : Uuid) :
    Except SqlError (Database × Uuid) := do
  let e ← workflowLockedLease db.workflow now lease
  let mismatch := refused "review/request identity mismatch"
  let r ← orRaise (db.workflow.request? e.requestId) mismatch
  let v ← orRaise ((db.store kind).review? review) mismatch
  raiseIf (r.trigger ∉ [.watchlistAdd, .manualRefresh] ∨ r.workspaceId ≠ v.workspaceId ∨ r.securityId ≠ v.securityId ∨
    r.quoteIdentifierId ≠ some v.quoteIdentifierId ∨ env.issuedBy r.securityId v.issuerId = false) mismatch
  raiseIf (¬ ∃ s ∈ db.workflow.stages.rows, s.id = stage ∧ s.executionId = e.id ∧ s.stageKey = kind.stageKey ∧ s.Running)
    (unready "active stage required")
  raiseIf (¬ ∃ i ∈ (db.store kind).intents.rows, i.requestId = r.id ∧ i.reviewId = review) (refused "request review intent mismatch")
  let manifest ← orRaise (jsonbIn env.limits v.manifestText) (refused "manifest")
  raiseIf ((member "selector" manifest).any (env.selected r) = false) (refused "explicit request selections differ")
  let membership ← requestMembership db.workflow r
  match (db.store kind).inputOf? r.id with
  | some i =>
    raiseIf (i.reviewId ≠ review) (unready "request inputs already frozen")
    return (db, i.id)
  | none =>
    let scope := scopeOf (membership.map (·.id))
    let inputs ← (db.store kind).inputs.insert
      ⟨fresh, r.id, e.id, v.id, membership.map (·.id), membership.map (·.generation), scope⟩ (violates "input_snapshots")
    let store ← { db.store kind with inputs }.project db.workflow (contextOf r v scope) r.id
      r.requestSequence
    return (db.withStore kind store, fresh)

/-! ### Publishing -/

/-- The text under which payloads of a kind are stored. -/
def Kind.version : Kind → String
  | .fundamentals => "s6-fundamentals-v1"
  | .valuation => "s7-result-v1"

/-- The workspace of a stored payload; those of fundamentals are shared. -/
def Kind.payloadWorkspace (kind : Kind) (workspace : Uuid) : Option Uuid :=
  match kind with
  | .fundamentals => none
  | .valuation => some workspace

/-- The checks of a stored payload that are not those of its hash and text. -/
def payloadChecked (kind : Kind) (p : Jsonb) : Prop :=
  text "version" p = some (named kind.version) ∧ text "evidence_mode" p = some (named "synthetic")

instance (kind : Kind) (p : Jsonb) : Decidable (payloadChecked kind p) := inferInstanceAs (Decidable (_ ∧ _))

/-- A payload is about what the review is about. -/
def matchesReview (kind : Kind) (v : Review) (p manifest : Jsonb) : Prop :=
  match kind with
  -- canonical values are equal when their texts are
  | .fundamentals => (member "selector" p).map jsonbOut = (member "selector" manifest).map jsonbOut
  | .valuation => text "source_snapshot_id" p = v.sourceSnapshotId.map env.uuidText

instance (kind : Kind) (v : Review) (p manifest : Jsonb) : Decidable (matchesReview env kind v p manifest) := by
  unfold matchesReview
  cases kind <;> infer_instance

/-- Whether a result has gaps. -/
def gaps (kind : Kind) (p manifest : Jsonb) (stages : List StageAttempt) : Except SqlError Bool :=
  match kind with
  | .fundamentals => fundamentalsGaps p manifest stages
  | .valuation => valuationGaps p

/-- Store a payload, unless one is stored for the same manifest. -/
def Store.savePayload (store : Store) (kind : Kind) (row : PayloadRow) (p : Jsonb) : Except SqlError Store := do
  raiseIf (¬ payloadChecked kind p) (violates "payloads")
  if ∃ other ∈ store.payloads.rows, other.workspaceId = row.workspaceId ∧ other.dependencyHash = row.dependencyHash then return store
  else
    let payloads ← store.payloads.insert row (violates "payloads")
    return { store with payloads }

/-- `valuation_result_child_guard` of an entry of a list, which has a name. -/
def entryGuard (p : Jsonb) (list : String) (ordinal : ℕ) (name resultText : List CodePoint) : Except SqlError Jsonb := do
  let differs := refused "child differs from saved payload"
  let expected ← orRaise ((member list p).bind (item (ordinal - 1))) differs
  raiseIf (some resultText ≠ fundamentalsCanonical expected ∨ some name ≠ text "name" expected) differs
  return expected

/-- The row of a scenario. -/
def scenarioRow (p : Jsonb) (run : Uuid) (entry : Jsonb × ℕ) : Except SqlError ScenarioRow := do
  let (x, ordinal) := entry
  let name ← orRaise (text "name" x) (violates "valuation_scenario_results")
  let state ← orRaise (pathText "solve" "state" x) (violates "valuation_scenario_results")
  let resultText ← orRaise (fundamentalsCanonical x) (violates "valuation_scenario_results")
  let expected ← entryGuard p "scenarios" ordinal name resultText
  raiseIf (some state ≠ pathText "solve" "state" expected) (refused "solve state differs from payload")
  return ⟨run, ordinal, name, state, resultText⟩

/-- The row of a grid. -/
def sensitivityRow (p : Jsonb) (run : Uuid) (entry : Jsonb × ℕ) : Except SqlError SensitivityRow := do
  let (x, ordinal) := entry
  let name ← orRaise (text "name" x) (violates "valuation_sensitivity_results")
  let resultText ← orRaise (fundamentalsCanonical x) (violates "valuation_sensitivity_results")
  let _expected ← entryGuard p "sensitivities" ordinal name resultText
  return ⟨run, ordinal, name, resultText⟩

/-- The row of a conclusion. -/
def conclusionRow (p : Jsonb) (run : Uuid) (entry : Jsonb × ℕ) : Except SqlError ConclusionRow := do
  let (x, ordinal) := entry
  let conclusion ← orRaise (textOf x) (violates "valuation_conclusions")
  raiseIf (some conclusion ≠ ((member "conclusions" p).bind (item (ordinal - 1))).bind textOf)
    (refused "conclusion differs from saved payload")
  return ⟨run, ordinal, conclusion⟩

/-- The entries of a list with their ordinals. -/
def numbered (items : List Jsonb) : List (Jsonb × ℕ) := items.zipIdx 1

/-- The children of a run. -/
def Store.saveChildren (store : Store) (p : Jsonb) (run : Uuid) : Except SqlError Store := do
  let scenarios ← elements (member "scenarios" p)
  let scenarioRows ← (numbered scenarios).mapM (scenarioRow p run)
  let scenarios ← Table.write (store.scenarios.rows ++ scenarioRows) (violates "valuation_scenario_results")
  let grids ← elements (member "sensitivities" p)
  let sensitivityRows ← (numbered grids).mapM (sensitivityRow p run)
  let sensitivities ← Table.write (store.sensitivities.rows ++ sensitivityRows) (violates "valuation_sensitivity_results")
  let conclusions ← elements (member "conclusions" p)
  let conclusionRows ← (numbered conclusions).mapM (conclusionRow p run)
  let conclusions ← Table.write (store.conclusions.rows ++ conclusionRows) (violates "valuation_conclusions")
  return { store with scenarios, sensitivities, conclusions }

/-- `valuation_run_complete`: there are as many children as entries. -/
def Store.runComplete (store : Store) (p : Jsonb) (run : Uuid) : Except SqlError Unit := do
  let scenarios ← arrayLength (member "scenarios" p)
  let sensitivities ← arrayLength (member "sensitivities" p)
  let conclusions ← arrayLength (member "conclusions" p)
  raiseIf ((∃ n ∈ scenarios, (store.scenarios.select (·.runId = run)).length ≠ n) ∨
    (∃ n ∈ sensitivities, (store.sensitivities.select (·.runId = run)).length ≠ n) ∨
    ∃ n ∈ conclusions, (store.conclusions.select (·.runId = run)).length ≠ n) (refused "incomplete saved result roster")

/-- The children of a result, which only a valuation has. -/
def Store.saveEntries (kind : Kind) (store : Store) (p : Jsonb) (run : Uuid) : Except SqlError Store :=
  match kind with
  | .fundamentals => .ok store
  | .valuation => store.saveChildren p run

/-- The check of the children when the transaction commits. -/
def Store.entriesComplete (kind : Kind) (store : Store) (p : Jsonb) (run : Uuid) : Except SqlError Unit :=
  match kind with
  | .fundamentals => .ok ()
  | .valuation => store.runComplete p run

/-- Project a result, if its request is still the latest. -/
def Store.projectResult (store : Store) (workflow : Workflow.Database) (context : Context) (sequence : ℕ) (result : Uuid) :
    Except SqlError Store :=
  match store.latest.rows.find? fun row => decide (row.context = context ∧ row.latestRequestSequence = sequence) with
  | none => return store
  | some old => do
    let row : LatestRow := { old with snapshot := some (result, sequence) }
    store.latestGuard workflow (some old) row
    let latest ← store.latest.update (fun row => row.context = context ∧ row.latestRequestSequence = sequence) (fun _ => row)
      (violates "latest")
    return { store with latest }

/-- A result that was published before is returned to whoever published it. -/
def replay (old : ResultRow) (lease : Lease) (stage input : Uuid) (hash : String) : Except SqlError Uuid := do
  raiseIf (old.leaseIdentity ≠ lease ∨ old.stageId ≠ stage ∨ old.inputSnapshotId ≠ input ∨ old.payloadHash ≠ hash)
    (unready "conflicting publication replay")
  return old.id

/-- The outcome of a result with gaps or without. -/
def outcomeOf (gapped : Bool) : Outcome := if gapped then .completedWithGaps else .completed

/-- The rows of a publication: its result, its payload and its children. -/
def saveResult (kind : Kind) (db : Database) (lease : Lease) (stage : Uuid) (payload : List CodePoint) (fresh : Uuid)
    (e : Execution) (r : AnalysisRequest) (i : InputSnapshot) (v : Review) (p manifest : Jsonb) : Except SqlError (Store × Outcome) := do
  let store ← (db.store kind).savePayload kind ⟨kind.payloadWorkspace r.workspaceId, env.digest payload, v.manifestHash, payload⟩ p
  raiseIf (∀ row ∈ store.payloads.rows, ¬ (row.workspaceId = kind.payloadWorkspace r.workspaceId ∧
    row.dependencyHash = v.manifestHash ∧ row.payloadText = payload)) (refused "non-deterministic payload")
  let gapped ← gaps kind p manifest (db.workflow.stagesOf e.id)
  let outcome := outcomeOf gapped
  let results ← store.results.insert
    { id := fresh, requestId := r.id, executionId := e.id, inputSnapshotId := i.id, payloadHash := env.digest payload,
      leaseIdentity := lease, stageId := stage, outcome,
      parentRunId := if kind = .valuation then (r.parentRequestId.bind store.resultOf?).map (·.id) else none }
    (violates "results")
  let store := { store with results }
  let store ← store.saveEntries kind p fresh
  return (store, outcome)

/-- `fundamentals_publish` and `valuation_publish`, with the check that is made when the transaction commits. -/
def publish (kind : Kind) (db : Database) (now : Instant) (lease : Lease) (stage input : Uuid) (payload : List CodePoint) (fresh : Uuid) :
    Except SqlError (Database × Uuid) := do
  let p ← orRaise (jsonbIn env.limits payload) ⟨.invalidParameterValue, "invalid input syntax for type json"⟩
  match (db.store kind).resultOf? lease.requestId with
  | some old =>
    let id ← replay old lease stage input (env.digest payload)
    return (db, id)
  | none =>
    let e ← workflowLockedLease db.workflow now lease
    let ownership := refused "frozen input ownership mismatch"
    let r ← orRaise (db.workflow.request? e.requestId) ownership
    let i ← orRaise ((db.store kind).inputs.rows.find? fun i => decide (i.id = input ∧ i.requestId = r.id)) ownership
    let v ← orRaise ((db.store kind).review? i.reviewId) ownership
    raiseIf (∃ id ∈ i.membershipId, ∃ m ∈ db.workflow.membership? id, m.removedAt ≠ none ∨ some m.generation ≠ i.membershipGeneration)
      (unready "membership no longer eligible")
    raiseIf ((¬ ∃ s ∈ db.workflow.stages.rows, s.id = stage ∧ s.executionId = e.id ∧ s.stageKey = kind.stageKey ∧ s.Running) ∨
      ∃ s ∈ db.workflow.stages.rows, s.executionId = e.id ∧ s.Running ∧ s.id ≠ stage) (unready "exclusive active stage required")
    let manifest ← orRaise (jsonbIn env.limits v.manifestText) (refused "manifest")
    raiseIf (fundamentalsCanonical p ≠ some payload ∨ env.digest payload ≠ v.expectedPayloadHash ∨
      text "dependency_hash" p ≠ some (named v.manifestHash) ∨ ¬ matchesReview env kind v p manifest)
      (refused "payload differs from independently reviewed calculation")
    let (store, outcome) ← saveResult env kind db lease stage payload fresh e r i v p manifest
    let (workflow, _) ← workflowFinishStage db.workflow now lease stage (some .completed) none [] fun _ => true
    let (workflow, _) ← workflowFinish workflow now lease (some outcome) none
    let store ← store.projectResult workflow (contextOf r v i.scopeId) r.requestSequence fresh
    store.entriesComplete kind p fresh
    return ({ db with workflow }.withStore kind store, fresh)

/-- `fundamentals_enqueue`. -/
def fundamentalsEnqueue := enqueue env .fundamentals

/-- `fundamentals_freeze`. -/
def fundamentalsFreeze := freeze env .fundamentals

/-- `fundamentals_publish`. -/
def fundamentalsPublish := publish env .fundamentals

/-- `valuation_enqueue`. -/
def valuationEnqueue := enqueue env .valuation

/-- `valuation_freeze`. -/
def valuationFreeze := freeze env .valuation

/-- `valuation_publish`. -/
def valuationPublish := publish env .valuation

end EquityEval.Publication
