import EquityEval.PointInTime.Tables
import EquityEval.Transition.System

/-!
# Writing evidence

Rows of evidence are inserted and never changed, except that a batch is completed once. The triggers
of the tables tie a row to those it refers to, refuse rows of a batch that is not building, and seal
the scopes of an event with the transaction that created it. What the triggers check against units,
semantic scopes, candidates and other tables that are not modelled is answered by an argument.
-/

namespace EquityEval.PointInTime

open Relational Workflow Ingestion TransitionSystem

/-- A row that is inserted, or a batch that is updated. -/
inductive Write where
  | capture (row : SourceCapture)
  | filing (row : Filing)
  | version (row : FilingVersion)
  | batch (row : NormalizationBatch)
  | transition (batch : Uuid) (state : BatchState) (publishedAt : Option Instant)
      (inputManifestHash outputManifestHash : Option String)
  | input (row : NormalizationInput)
  | coverage (row : StatementCoverage)
  | observation (row : SourceObservation)
  | resolution (row : FactResolution)
  | flag (row : DataQualityFlag)
  | event (row : FilingEvent)
  | scope (row : FilingEventScope)

/-- An error of a trigger. -/
def refused (message : String) : SqlError := ⟨.checkViolation, message⟩

/-- A foreign key refers to a row. -/
def refers {ρ : Type} (found : Option ρ) (table : String) : Except SqlError Unit :=
  raiseIf (found.isNone = true) ⟨.foreignKeyViolation, table⟩

namespace Store

variable (s : Store)

/-- The capture with an identifier. -/
abbrev capture? (id : Uuid) : Option SourceCapture := s.captures.lookup SourceCapture.id id

/-- The filing with an identifier. -/
abbrev filing? (id : Uuid) : Option Filing := s.filings.lookup Filing.id id

/-- The filing version with an identifier. -/
abbrev version? (id : Uuid) : Option FilingVersion := s.versions.lookup FilingVersion.id id

/-- The batch with an identifier. -/
abbrev batch? (id : Uuid) : Option NormalizationBatch := s.batches.lookup NormalizationBatch.id id

/-- The covered statement with an identifier. -/
abbrev coverage? (id : Uuid) : Option StatementCoverage := s.coverage.lookup StatementCoverage.id id

/-- The observation with an identifier. -/
abbrev observation? (id : Uuid) : Option SourceObservation := s.observations.lookup SourceObservation.id id

/-- The resolution with an identifier. -/
abbrev resolution? (id : Uuid) : Option FactResolution := s.resolutions.lookup FactResolution.id id

/-- The event with an identifier. -/
abbrev event? (id : Uuid) : Option FilingEvent := s.events.lookup FilingEvent.id id

/-- The issuer of the filing of a version. -/
def versionIssuer (id : Uuid) : Option Uuid := do
  let version ← s.version? id
  let filing ← s.filing? version.filingId
  return filing.issuerId

/-- `evidence_lock_building`. -/
def lockBuilding (batch : Option Uuid) : Except SqlError Unit :=
  raiseIf ((batch.bind s.batch?).map (·.state) ≠ some .building) (refused "normalization batch is sealed or missing")

/-- The capture is complete and successful. -/
def archived (c : SourceCapture) : Bool :=
  c.completedAt.isSome && c.fetchedAt.isSome && c.httpStatus.any (fun status => decide (Success status)) &&
    c.bodySha256.isSome && c.blobKey.isSome && c.byteCount.isSome

/-- The captures that a batch reads. -/
def inputCaptures (batch : Uuid) : List Uuid :=
  (s.inputs.select (·.batchId = batch)).map (·.sourceCaptureId)

/-- The resolutions of the statements that a batch covers. -/
def batchResolutions (batch : Uuid) : List FactResolution :=
  s.resolutions.select fun r => (s.coverage? r.coverageId).map (·.batchId) = some batch

/-- What the publication of a batch requires. -/
def publicationCheck (batch : Uuid) : Except SqlError Unit := do
  raiseIf (s.inputCaptures batch = [] ∨ ∃ id ∈ s.inputCaptures batch, ¬ (s.capture? id).any archived)
    (refused "publication requires successful archived input captures")
  raiseIf (∃ c ∈ s.coverage.rows, c.batchId = batch ∧
      ∃ version ∈ s.version? c.filingVersionId, version.metadataCaptureId ∉ s.inputCaptures batch)
    (refused "filing metadata capture is missing from input manifest")
  raiseIf (∃ r ∈ s.batchResolutions batch,
      ∃ o ∈ r.selectedObservationId.bind s.observation?, o.sourceCaptureId ∉ s.inputCaptures batch)
    (refused "observation capture is missing from input manifest")
  raiseIf (∃ r ∈ s.batchResolutions batch, r.status ≠ .observed ∧
      ¬ ∃ f ∈ s.flags.rows, f.resolutionId = some r.id ∧ f.batchId = some batch)
    (refused "unresolved resolution requires linked quality flag")
  raiseIf (¬ ∃ c ∈ s.coverage.rows, c.batchId = batch) (refused "publication requires explicit statement coverage")

/-- What a change of a batch to a state requires. -/
def transitionCheck (batch : Uuid) (state : BatchState) : Except SqlError Unit :=
  if state = .published then s.publicationCheck batch else .ok ()

/-- Lock the batch of a flag, if it has one. -/
def lockFlagBatch (batch : Option Uuid) : Except SqlError Unit :=
  if batch = none then .ok () else s.lockBuilding batch

/-- Insert a capture. -/
def insertCapture (row : SourceCapture) : Except SqlError Store := do
  let captures ← s.captures.insert row (violates "source_captures")
  return { s with captures }

/-- Insert a filing. -/
def insertFiling (row : Filing) : Except SqlError Store := do
  let filings ← s.filings.insert row (violates "filings")
  return { s with filings }

/-- Insert a filing version. -/
def insertVersion (row : FilingVersion) : Except SqlError Store := do
  refers (s.filing? row.filingId) "filings"
  refers (s.capture? row.metadataCaptureId) "source_captures"
  let versions ← s.versions.insert row (violates "filing_versions")
  return { s with versions }

/-- Insert a batch. -/
def insertBatch (row : NormalizationBatch) : Except SqlError Store := do
  raiseIf (row.state ≠ .building) (refused "new batch must start building")
  let batches ← s.batches.insert row (violates "normalization_batches")
  return { s with batches }

/-- Complete a batch, or record its hashes. -/
def transitionBatch (batch : Uuid) (state : BatchState) (publishedAt : Option Instant)
    (inputManifestHash outputManifestHash : Option String) : Except SqlError Store := do
  raiseIf (∃ old ∈ s.batch? batch, old.state ≠ .building) (refused "completed normalization batch is immutable")
  s.transitionCheck batch state
  let batches ← s.batches.update (·.id = batch)
    (fun b => { b with state, publishedAt, inputManifestHash, outputManifestHash }) (violates "normalization_batches")
  return { s with batches }

/-- Insert an input of a batch. -/
def insertInput (row : NormalizationInput) : Except SqlError Store := do
  s.lockBuilding row.batchId
  refers (s.capture? row.sourceCaptureId) "source_captures"
  let inputs ← s.inputs.insert row (violates "normalization_inputs")
  return { s with inputs }

/-- Insert a covered statement. -/
def insertCoverage (row : StatementCoverage) : Except SqlError Store := do
  s.lockBuilding row.batchId
  raiseIf ((s.batch? row.batchId).map (·.issuerId) ≠ s.versionIssuer row.filingVersionId)
    (refused "coverage filing/scope issuer mismatch")
  refers (s.version? row.filingVersionId) "filing_versions"
  let coverage ← s.coverage.insert row (violates "statement_coverage")
  return { s with coverage }

/-- Insert an observation. -/
def insertObservation (row : SourceObservation) : Except SqlError Store := do
  refers (s.capture? row.sourceCaptureId) "source_captures"
  refers (s.version? row.filingVersionId) "filing_versions"
  let observations ← s.observations.insert row (violates "source_observations")
  return { s with observations }

/-- An observation is one that a resolution of a covered statement may select. -/
def selectable (c : StatementCoverage) (row : FactResolution) (o : SourceObservation) : Prop :=
  o.filingVersionId = c.filingVersionId ∧ o.periodId = c.periodId ∧ o.unitId = row.unitId ∧
    o.semanticScopeId = some row.semanticScopeId ∧ (row.status = .observed → o.valueState = .numeric) ∧
    (row.status = .sourceNil → o.valueState = .sourceNil) ∧ c.currencyUnitId ≠ none ∧ c.coverageState = .covered

instance (c : StatementCoverage) (row : FactResolution) (o : SourceObservation) : Decidable (selectable c row o) := by
  unfold selectable
  infer_instance

/-- Insert a resolution. -/
def insertResolution (row : FactResolution) : Except SqlError Store := do
  s.lockBuilding ((s.coverage? row.coverageId).map (·.batchId))
  let c ← orRaise (s.coverage? row.coverageId) ⟨.foreignKeyViolation, "statement_coverage"⟩
  raiseIf (row.semanticScopeId ≠ c.scopeId) (refused "resolution scope/instrument mismatch")
  raiseIf (∃ id ∈ row.selectedObservationId, ¬ ∃ o ∈ s.observation? id, selectable c row o)
    (refused "selected observation filing/period/unit/scope/state mismatch")
  let resolutions ← s.resolutions.insert row (violates "fact_resolutions")
  return { s with resolutions }

/-- Insert a quality flag. -/
def insertFlag (row : DataQualityFlag) : Except SqlError Store := do
  raiseIf (∃ id ∈ row.resolutionId, ¬ ∃ r ∈ s.resolution? id, ∃ c ∈ s.coverage? r.coverageId,
      row.batchId = some c.batchId ∧ (row.periodId = none ∨ row.periodId = some c.periodId))
    (refused "flag resolution scope mismatch")
  s.lockFlagBatch row.batchId
  raiseIf (∃ batch ∈ row.batchId, (s.batch? batch).map (·.issuerId) ≠ some row.issuerId) (refused "flag issuer mismatch")
  let flags ← s.flags.insert row (violates "data_quality_flags")
  return { s with flags }

/-- Insert an event. -/
def insertEvent (row : FilingEvent) : Except SqlError Store := do
  raiseIf (row.creationTransactionId ≠ s.transaction) (refused "event creation transaction must be current")
  raiseIf (s.versionIssuer row.sourceFilingVersionId ≠ some row.issuerId) (refused "event issuer mismatch")
  let events ← s.events.insert row (violates "filing_events")
  return { s with events }

/-- Insert a scope of an event. -/
def insertScope (row : FilingEventScope) : Except SqlError Store := do
  let e ← orRaise (s.event? row.eventId) (refused "event scope set is sealed after its creation transaction")
  raiseIf (e.creationTransactionId ≠ s.transaction) (refused "event scope set is sealed after its creation transaction")
  raiseIf (e.eventKind ∈ [.nonReliance, .withdrawal] ∧ row.filingId = none)
    (refused "non-reliance/withdrawal requires explicit affected filing")
  raiseIf (∃ id ∈ row.filingId, (s.filing? id).map (·.issuerId) ≠ some e.issuerId) (refused "event scope issuer mismatch")
  let scopes ← s.scopes.insert row (violates "filing_event_scopes")
  return { s with scopes }

/-- One write of a transaction. -/
def write (admits : Write → Bool) (w : Write) : Except SqlError Store := do
  raiseIf (¬ admits w) (refused "other tables")
  match w with
  | .capture row => s.insertCapture row
  | .filing row => s.insertFiling row
  | .version row => s.insertVersion row
  | .batch row => s.insertBatch row
  | .transition batch state publishedAt input output => s.transitionBatch batch state publishedAt input output
  | .input row => s.insertInput row
  | .coverage row => s.insertCoverage row
  | .observation row => s.insertObservation row
  | .resolution row => s.insertResolution row
  | .flag row => s.insertFlag row
  | .event row => s.insertEvent row
  | .scope row => s.insertScope row

/-- A transaction writes one row after the other, and no event without a scope; then the next begins. -/
def commit (admits : Write → Bool) (writes : List Write) : Except SqlError Store := do
  let written ← writes.foldlM (fun s w => s.write admits w) s
  raiseIf (∃ e ∈ written.events.rows, e.creationTransactionId = s.transaction ∧
      ¬ ∃ scope ∈ written.scopes.rows, scope.eventId = e.id) (refused "event requires an explicit affected scope")
  return { written with transaction := s.transaction + 1 }

end Store

/-- A transaction, with the answers of the tables that are not modelled. -/
structure Transaction where
  admits : Write → Bool
  writes : List Write

/-- The committed states of the store, from the empty tables on. -/
def evidenceSystem : System Store Transaction where
  initial s := s = Store.empty
  step s t s' := s.commit t.admits t.writes = .ok s'

end EquityEval.PointInTime
