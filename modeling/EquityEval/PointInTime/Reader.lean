import EquityEval.Discovery.Inventory
import EquityEval.PointInTime.Guards

/-!
# Reading a statement

A query pins batches, captures, events and quality flags. The read checks the pinned bundle, selects
the newest captures, chooses one edition among the covered statements, and returns the resolution of
each concept with what restricts its use. The database returns the rows of a query in any order.
-/

namespace EquityEval.PointInTime

open Relational Workflow Ingestion DecimalArithmetic
open Discovery (sortedSet)

/-- Which edition of a statement is read. -/
inductive HistoryMode where
  | asFiledByDate
  | originalAsFiled
  | latestReported
deriving DecidableEq, Repr

/-- A query of one statement; its retrieval vintage is an instant. -/
structure PitQuery where
  issuerId : Uuid
  periodId : Uuid
  scopeId : Uuid
  unitId : Uuid
  statementFamily : StatementFamily
  concepts : List Concept
  batchIds : List Uuid
  captureIds : List Uuid
  filingEventIds : List Uuid
  mappingRevisionId : Uuid
  normalizerRevision : String
  authorityPolicyRevision : String
  capturedBefore : Instant
  mode : HistoryMode
  filedCutoff : Option Day := none
  instrumentId : Option Uuid := none
  securityId : Option Uuid := none
  reportingCurrencyUnitId : Option Uuid := none
  additionalQualityFlagIds : List Uuid := []
  auditedRequired : Bool := false
  allowReviewedEquivalent : Bool := false
  originalHistoryComplete : Bool := false
  cutoffGiven : mode = .asFiledByDate → filedCutoff ≠ none
  pinned : concepts ≠ [] ∧ concepts.Nodup ∧ batchIds ≠ [] ∧ batchIds.Nodup ∧ captureIds ≠ [] ∧ captureIds.Nodup
  distinct : filingEventIds.Nodup ∧ additionalQualityFlagIds.Nodup
  revisions : normalizerRevision ≠ "" ∧ authorityPolicyRevision ≠ ""
deriving DecidableEq

/-- The fact selected for a concept. -/
structure SelectedFact where
  concept : Concept
  value : Option Decimal
  status : FactStatus
  resolutionIds : List Uuid := []
  observationIds : List Uuid := []
  accession : Option String := none
  filedDate : Option Day := none
  sourceUrl : Option String := none
  sourceLocator : Option String := none
  captureIds : List Uuid := []
  sourceHashes : List String := []
  sourceTag : Option String := none
  originalNumericText : Option String := none
  transformJson : Option String := none
  reason : Option String := none
  flags : List String := []
deriving DecidableEq

/-- What is hashed of a selection. -/
structure SelectionContent where
  query : PitQuery
  coverageIds : List Uuid
  filingVersionIds : List Uuid
  facts : List SelectedFact
  flags : List String
  qualityFlagIds : List Uuid
  eventIds : List Uuid
  usableForValuation : Bool
  reportingBasis : Option String
deriving DecidableEq

/-- The selection of a statement. -/
structure StatementSelection extends SelectionContent where
  inputHash : String
deriving DecidableEq

/-- The order in which the database returns the rows of a query. -/
structure RowOrder where
  arrange {α : Type} : List α → List α
  perm {α : Type} (rows : List α) : (arrange rows).Perm rows

/-- The rows in the order of their insertion. -/
def RowOrder.stored : RowOrder where
  arrange rows := rows
  perm _ := .refl _

/-! ### The bundle -/

/-- An input of a batch with its capture. -/
structure InputRow where
  input : NormalizationInput
  capture : SourceCapture
deriving DecidableEq

namespace InputRow

/-- The source object and the role of an input. -/
def group (row : InputRow) : Uuid × String × String :=
  (row.capture.sourceId, row.capture.sourceObjectKey, row.input.role)

/-- The input was retrieved before another one of its group. -/
abbrev Superseded (inputs : List InputRow) (row : InputRow) : Prop :=
  ∃ other ∈ inputs, other.group = row.group ∧ ∃ fetched ∈ row.capture.fetchedAt,
    ∃ newer ∈ other.capture.fetchedAt, fetched < newer

/-- The input was retrieved, and its capture completed, by an instant. -/
abbrev KnownBy (vintage : Instant) (row : InputRow) : Prop :=
  (∃ fetched ∈ row.capture.fetchedAt, fetched ≤ vintage) ∧ ∃ completed ∈ row.capture.completedAt, completed ≤ vintage

end InputRow

/-- The captures of the newest inputs of each group, unless these disagree or are superseded in
another role. -/
def selectSourceCaptures (inputs : List InputRow) : Except String (List Uuid) := do
  let latest := inputs.filter fun row => decide (¬ row.Superseded inputs)
  let superseded := inputs.filter fun row => decide (row.Superseded inputs)
  raiseIf (∃ row ∈ latest, ∃ other ∈ latest, row.group = other.group ∧ row.capture.bodySha256 ≠ other.capture.bodySha256)
    "ambiguous_capture_vintage"
  raiseIf (∃ row ∈ latest, ∃ other ∈ superseded, row.input.sourceCaptureId = other.input.sourceCaptureId)
    "incompatible_source_roles"
  return sortedSet (latest.map (·.input.sourceCaptureId))

namespace Store

variable (s : Store)

/-- The pinned batches. -/
def batchRows (q : PitQuery) : List NormalizationBatch := s.batches.select (·.id ∈ q.batchIds)

/-- The inputs of the pinned batches. -/
def inputRows (q : PitQuery) : List InputRow :=
  (s.inputs.select (·.batchId ∈ q.batchIds)).filterMap fun input => (s.capture? input.sourceCaptureId).map (⟨input, ·⟩)

/-- The pinned events with the versions of their filings. -/
def eventRows (q : PitQuery) : List (FilingEvent × FilingVersion) :=
  (s.events.select (·.id ∈ q.filingEventIds)).filterMap fun e => (s.version? e.sourceFilingVersionId).map (e, ·)

/-- The additional quality flags. -/
def additionalFlags (q : PitQuery) : List DataQualityFlag := s.flags.select (·.id ∈ q.additionalQualityFlagIds)

end Store

/-- A batch has the issuer and the revisions of a query. -/
abbrev NormalizationBatch.Compatible (b : NormalizationBatch) (q : PitQuery) : Prop :=
  b.issuerId = q.issuerId ∧ b.mappingRevisionId = q.mappingRevisionId ∧
    b.normalizerRevision = q.normalizerRevision ∧ b.sourceAuthorityPolicyRevision = q.authorityPolicyRevision

/-- A quality flag is of the issuer, the period, the security and the batches of a query. -/
abbrev DataQualityFlag.Compatible (f : DataQualityFlag) (q : PitQuery) : Prop :=
  f.issuerId = q.issuerId ∧ (f.periodId = none ∨ f.periodId = some q.periodId) ∧
    (f.securityId = none ∨ f.securityId = q.securityId) ∧ (f.batchId = none ∨ ∃ batch ∈ f.batchId, batch ∈ q.batchIds)

/-- The chosen captures of a pinned bundle, or the flag that refuses it. -/
def bundle (o : RowOrder) (s : Store) (q : PitQuery) : Except String (List Uuid) := do
  let batches := o.arrange (s.batchRows q)
  raiseIf (batches.length ≠ q.batchIds.length ∨ ∃ row ∈ batches, row.state ≠ .published) "unpublished_or_missing_batch"
  raiseIf (∃ row ∈ batches, ¬ row.Compatible q) "incompatible_batch_revision"
  raiseIf (∃ row ∈ batches, ∃ other ∈ batches, row.inputManifestHash = other.inputManifestHash ∧
    row.outputManifestHash ≠ other.outputManifestHash) "nondeterministic_normalization"
  let inputs := o.arrange (s.inputRows q)
  raiseIf (sortedSet (inputs.map (·.input.sourceCaptureId)) ≠ sortedSet q.captureIds) "incompatible_capture_manifest"
  raiseIf (∃ row ∈ inputs, ¬ row.KnownBy q.capturedBefore) "capture_unavailable"
  let events := o.arrange (s.eventRows q)
  raiseIf (events.length ≠ q.filingEventIds.length ∨
    ∃ row ∈ events, row.1.issuerId ≠ q.issuerId ∨ row.2.metadataCaptureId ∉ q.captureIds) "incompatible_event_manifest"
  let quality := o.arrange (s.additionalFlags q)
  raiseIf (quality.length ≠ q.additionalQualityFlagIds.length ∨ ∃ row ∈ quality, ¬ row.Compatible q)
    "incompatible_quality_manifest"
  let selected ← selectSourceCaptures inputs
  raiseIf (∃ row ∈ events, row.2.metadataCaptureId ∉ selected) "incompatible_event_vintage"
  return selected

/-! ### The edition -/

/-- A covered statement with its filing. -/
structure CoverageRow where
  coverage : StatementCoverage
  version : FilingVersion
  filing : Filing
deriving DecidableEq

/-- The covered statements that a query asks for. -/
def Store.coverageRows (s : Store) (q : PitQuery) : List CoverageRow :=
  (s.coverage.select fun c => c.batchId ∈ q.batchIds ∧ c.periodId = q.periodId ∧
    c.statementFamily = q.statementFamily ∧ c.scopeId = q.scopeId ∧
    (c.currencyUnitId = some (q.reportingCurrencyUnitId.getD q.unitId) ∨ c.currencyUnitId = none)).filterMap fun c => do
      let version ← s.version? c.filingVersionId
      let filing ← s.filing? version.filingId
      return ⟨c, version, filing⟩

/-- A covered statement has the captures, the authority, the assurance and the filing date that a
query allows. -/
abbrev CoverageRow.Eligible (q : PitQuery) (captures : List Uuid) (row : CoverageRow) : Prop :=
  row.version.metadataCaptureId ∈ captures ∧
    (row.coverage.authorityClass = .periodicComplete ∨
      (q.allowReviewedEquivalent ∧ row.coverage.authorityClass = .reviewedEquivalent)) ∧
    (q.auditedRequired → row.coverage.assurance = .audited) ∧ ∀ cutoff ∈ q.filedCutoff, row.version.filedDate ≤ cutoff

/-- The eligible ones among the covered statements that a query asks for. -/
def eligibleCoverage (o : RowOrder) (s : Store) (q : PitQuery) (captures : List Uuid) : List CoverageRow :=
  (o.arrange (s.coverageRows q)).filter fun row => decide (row.Eligible q captures)

/-- The rows whose key is the least for the original edition, and else the greatest. -/
def choose (mode : HistoryMode) (key : CoverageRow → ℤ) (rows : List CoverageRow) : List CoverageRow :=
  rows.filter fun row => decide (∀ other ∈ rows,
    if mode = .originalAsFiled then key row ≤ key other else key other ≤ key row)

/-- Rows of several filing versions. -/
abbrev SeveralVersions (rows : List CoverageRow) : Prop :=
  ∃ row ∈ rows, ∃ other ∈ rows, row.coverage.filingVersionId ≠ other.coverage.filingVersionId

/-- The instant at which a filing was accepted, where it is known. -/
def CoverageRow.acceptance (row : CoverageRow) : ℤ := row.version.acceptanceAt.getD 0

/-- The acceptance of every row is known with its time zone. -/
abbrev Verified (rows : List CoverageRow) : Prop :=
  ∀ row ∈ rows, row.version.acceptanceAt ≠ none ∧ row.version.acceptanceTimeBasis = some .verifiedTimezone

/-- The rows of the chosen filing date; where they are of several versions and their acceptance is
verified, those of the chosen acceptance. -/
def finalists (mode : HistoryMode) (rows : List CoverageRow) : List CoverageRow :=
  let sameDate := choose mode (·.version.filedDate) rows
  if SeveralVersions sameDate ∧ Verified sameDate then choose mode (·.acceptance) sameDate else sameDate

/-- The rows of the chosen edition, with the flag that blocks it. -/
def edition (rows : List CoverageRow) (q : PitQuery) : List CoverageRow × Option String :=
  let chosen := finalists q.mode rows
  (chosen,
    if SeveralVersions chosen then some "ambiguous_filing_order"
    else if ∃ row ∈ chosen, ∃ other ∈ chosen, row.coverage.reportingBasis ≠ other.coverage.reportingBasis then
      some "incompatible_reporting_basis"
    else if ∃ row ∈ chosen, row.coverage.currencyUnitId = none ∨ row.coverage.coverageState ≠ .covered then
      some "unresolved_coverage"
    else none)

/-! ### Facts, flags and events -/

/-- A resolution with its observation and the capture of this. -/
structure ResolutionRow where
  resolution : FactResolution
  observation : Option SourceObservation
  capture : Option SourceCapture
deriving DecidableEq

/-- What two resolutions must agree in. -/
def ResolutionRow.signature (row : ResolutionRow) : FactStatus × Option ℚ × Option Uuid :=
  (row.resolution.status, (row.observation.bind (·.numericValue)).map Decimal.value, row.resolution.selectedObservationId)

namespace Store

variable (s : Store)

/-- The resolutions of an edition in the scope, the unit and for the instrument of a query. -/
def resolutionRows (q : PitQuery) (coverageIds : List Uuid) : List ResolutionRow :=
  (s.resolutions.select fun r => r.coverageId ∈ coverageIds ∧ r.semanticScopeId = q.scopeId ∧ r.unitId = q.unitId ∧
    r.instrumentId = q.instrumentId).map fun r =>
      let observation := r.selectedObservationId.bind s.observation?
      ⟨r, observation, observation.bind fun o => s.capture? o.sourceCaptureId⟩

/-- The quality flags of a query: the additional ones, those of the pinned batches for the period or
for every period, and those of the resolutions. -/
def qualityRows (q : PitQuery) (resolutionIds : List Uuid) : List DataQualityFlag :=
  s.flags.select fun f => f.id ∈ q.additionalQualityFlagIds ∨
    ((∃ batch ∈ f.batchId, batch ∈ q.batchIds) ∧
      ((f.resolutionId = none ∧ (f.periodId = none ∨ f.periodId = some q.periodId)) ∨
        ∃ r ∈ f.resolutionId.bind s.resolution?, r.id ∈ resolutionIds))

/-- The pinned events that restrict the filings of an edition. -/
def affectingEvents (q : PitQuery) (captures filingIds : List Uuid) : List FilingEvent :=
  ((s.eventRows q).filter fun row => decide (row.1.issuerId = q.issuerId ∧
    (∀ cutoff ∈ q.filedCutoff, row.1.announcedDate ≤ cutoff) ∧ row.2.metadataCaptureId ∈ captures ∧
    row.1.eventKind ∈ [.nonReliance, .withdrawal] ∧
    ∃ scope ∈ s.scopes.rows, scope.eventId = row.1.id ∧ (∃ filing ∈ scope.filingId, filing ∈ filingIds) ∧
      (scope.periodId = none ∨ scope.periodId = some q.periodId) ∧
      ∀ concept ∈ scope.conceptStd, concept ∈ q.concepts)).map (·.1)

end Store

/-- Resolutions with several signatures. -/
abbrev Disagree (rows : List ResolutionRow) : Prop :=
  ∃ row ∈ rows, ∃ other ∈ rows, row.signature ≠ other.signature

/-- The resolutions of a concept. -/
def conceptRows (rows : List ResolutionRow) (concept : Concept) : List ResolutionRow :=
  rows.filter fun row => row.resolution.conceptStd = concept

/-- The status of a resolution, unless its observation is of a capture that is not chosen. -/
def currentStatus (captures : List Uuid) (row : ResolutionRow) : FactStatus :=
  if row.resolution.selectedObservationId ≠ none ∧ ¬ ∃ o ∈ row.observation, o.sourceCaptureId ∈ captures then .staleSource
    else row.resolution.status

/-- The fact of a concept that resolutions agree on, taken from the first of them. -/
def resolvedFact (captures : List Uuid) (editions : List CoverageRow) (concept : Concept) (found : List ResolutionRow)
    (row : ResolutionRow) : SelectedFact where
  concept
  value := if currentStatus captures row = .observed then row.observation.bind (·.numericValue) else none
  status := currentStatus captures row
  resolutionIds := sortedSet (found.map (·.resolution.id))
  observationIds := sortedSet (found.filterMap (·.resolution.selectedObservationId))
  accession := editions.head?.map (·.filing.accession)
  filedDate := editions.head?.map (·.version.filedDate)
  sourceUrl := row.capture.map (·.requestUrl)
  sourceLocator := row.observation.map (·.sourceLocator)
  captureIds := sortedSet (found.filterMap fun r => r.observation.map (·.sourceCaptureId))
  sourceHashes := sortedSet (found.filterMap fun r => r.capture.bind (·.bodySha256))
  sourceTag := row.observation.map fun o => o.sourceNamespace ++ ":" ++ o.tag
  originalNumericText := row.observation.bind (·.originalNumericText)
  transformJson := row.observation.map (·.transformMetadata)
  reason := row.resolution.reason

/-- The fact of a concept among the resolutions of an edition, with the flag that it raises. -/
def factOf (captures : List Uuid) (editions : List CoverageRow) (rows : List ResolutionRow) (concept : Concept) :
    SelectedFact × Option String :=
  let found := conceptRows rows concept
  match found.head? with
  | none => ({ concept, value := none, status := .missing, reason := some "Selected edition has no resolution" },
      some "unresolved_concept")
  | some row =>
    if Disagree found then
      ({ concept, value := none, status := .ambiguous, resolutionIds := sortedSet (found.map (·.resolution.id)) },
        some "ambiguous_resolution")
    else
      (resolvedFact captures editions concept found row,
        if currentStatus captures row = .observed then none else some "unresolved_concept")

/-- The flag of a kind of event. -/
def EventKind.flag : EventKind → String
  | .nonReliance => "non_reliance"
  | .withdrawal => "withdrawal"
  | .formalCorrection => "formal_correction"
  | .accountingRecast => "accounting_recast"
  | .sourceCorrection => "source_correction"
  | .reinstatement => "reinstatement"

/-! ### The selection -/

section Selection

variable (digest : SelectionContent → String)

/-- A selection with its hash. -/
def sealed (content : SelectionContent) : StatementSelection := { content with inputHash := digest content }

/-- A flag that does not block a statement. -/
def nonblocking (flag : String) : Bool := flag ∈ ["earliest_available", "revised_view"]

/-- The selection of rows, facts and flags. -/
def result (q : PitQuery) (flags : List String) (rows : List CoverageRow) (facts : List SelectedFact)
    (qualityFlagIds eventIds : List Uuid) : StatementSelection :=
  sealed digest {
    query := q
    coverageIds := sortedSet (rows.map (·.coverage.id))
    filingVersionIds := sortedSet (rows.map (·.coverage.filingVersionId))
    facts
    flags := sortedSet flags
    qualityFlagIds
    eventIds
    usableForValuation := flags.all nonblocking && facts.all fun fact => decide (fact.status = .observed)
    reportingBasis := rows.head?.map (·.coverage.reportingBasis) }

/-- The selection of a statement that a flag blocks. -/
def blocked (q : PitQuery) (flag : String) (rows : List CoverageRow) : StatementSelection :=
  result digest q [flag] rows (q.concepts.map fun concept =>
    { concept, value := none, status := .unavailable, flags := [flag] }) [] []

/-- The flags of a mode. -/
def modeFlags (q : PitQuery) : List String :=
  (if q.mode = .originalAsFiled ∧ ¬ q.originalHistoryComplete then ["earliest_available"] else []) ++
    (if q.mode = .latestReported then ["revised_view"] else [])

/-- The selection of an edition without a blocking flag. -/
def readEdition (o : RowOrder) (s : Store) (q : PitQuery) (captures : List Uuid) (editions : List CoverageRow) :
    StatementSelection :=
  let rows := o.arrange (s.resolutionRows q (editions.map (·.coverage.id)))
  let facts := q.concepts.map (factOf captures editions rows)
  let quality := o.arrange (s.qualityRows q (facts.flatMap (·.1.resolutionIds)))
  let events := o.arrange (s.affectingEvents q captures (editions.map (·.filing.id)))
  let flags := facts.filterMap (·.2) ++
    (if ∃ row ∈ quality, row.severity ∈ [.error, .blocking] then ["blocking_quality_flag"] else []) ++
    events.map (·.eventKind.flag) ++ modeFlags q
  result digest q flags editions (facts.map (·.1)) (sortedSet (quality.map (·.id))) (sortedSet (events.map (·.id)))

/-- The read of a statement, from an idle connection. -/
def readStatement (o : RowOrder) (s : Store) (q : PitQuery) : StatementSelection :=
  match bundle o s q with
  | .error flag => blocked digest q flag []
  | .ok captures =>
    let rows := eligibleCoverage o s q captures
    if rows = [] then
      blocked digest q "coverage_unavailable" []
    else
      let chosen := edition rows q
      match chosen.2 with
      | some flag => blocked digest q flag chosen.1
      | none => readEdition digest o s q captures chosen.1

end Selection

end EquityEval.PointInTime
