import EquityEval.Normalization.Source

/-!
# What is normalized

An input pins captures, filings, reviewed rules and the coverage that is asked for. It is checked as a
whole before any row is read.
-/

namespace EquityEval.Normalization

open Workflow DecimalArithmetic Gregorian PointInTime
open Fundamentals (PeriodSpec UnitSpec ScopeSpec)

/-! ### Inputs -/

/-- A capture of a source object. -/
structure EvidenceCapture where
  id : Uuid
  sourceId : Uuid
  sourceObjectKey : String
  requestUrl : String
  bodySha256 : String
  byteCount : ℕ
  fetchedAt : Instant
  completedAt : Instant
  role : String
deriving DecidableEq

/-- How complete a review is. -/
inductive CompletenessState where
  | complete
  | incomplete
  | unknown
deriving DecidableEq, Repr

/-- What a review covers. -/
structure Completeness where
  state : CompletenessState
  boundaryStart : Date
  boundaryEnd : Date
  evidenceReferences : List String
  ordered : boundaryStart ≤ boundaryEnd ∧ evidenceReferences ≠ []
deriving DecidableEq

/-- A version of a filing. -/
structure FilingMetadata where
  id : Uuid
  filingId : Uuid
  issuerId : Uuid
  accession : String
  metadataCaptureId : Uuid
  filedDate : Date
  form : String
  sourceUrl : String
  metadataHash : String
  reportPeriodEnd : Option Date := none
  acceptanceAt : Option Instant := none
  acceptanceTimeBasis : Option String := none
deriving DecidableEq

/-- Which tags report a concept. -/
structure MappingRule where
  reference : String
  cik : String
  accessions : List String
  concept : Concept
  qualifiedTags : List String
  unitKey : String
  scopeId : Uuid
  evidenceReferences : List String
  periodStart : Option Date
  periodEnd : Date
  scopeContentSha256 : String
  scopeKind : String
  instrumentId : Option Uuid
  statementFamily : String
  reportingBasis : String
  preferredTag : Option String := none
  rejectedTags : List String := []
  rationale : String := "Directly reported reviewed scope; no arithmetic fallback"
deriving DecidableEq

/-- The concepts that are asked for of a statement. -/
structure CoverageRequest where
  id : Uuid
  filingVersionId : Uuid
  period : PeriodSpec
  scope : ScopeSpec
  currency : UnitSpec
  statementFamily : String
  reportingBasis : String
  authorityClass : String
  assurance : String
  coverageState : String
  evidenceLocator : String
  concepts : List Concept
  periodLabel : Option String := none
deriving DecidableEq

/-- Everything that a normalization depends on. -/
structure NormalizationInput where
  issuerId : Uuid
  cik : String
  companyfactsCaptureId : Uuid
  captures : List EvidenceCapture
  filings : List FilingMetadata
  requests : List CoverageRequest
  rules : List MappingRule
  mappingRevisionId : Uuid
  parserRevision : String
  normalizerRevision : String
  authorityPolicyRevision : String
  capturedBefore : Instant
  inventoryCompleteness : Completeness
  eventCompleteness : Completeness
  filingEventIds : List Uuid := []
  additionalQualityFlagIds : List Uuid := []
  attemptIds : List Uuid := []

namespace NormalizationInput

variable (env : Readers) (inputs : NormalizationInput)

/-- The captures are those that a retrieval cutoff allows, and one of them is of the body. -/
def CapturesValid (body : List UInt8) : Prop :=
  (inputs.captures.map (·.id)).Nodup ∧
    (∃ capture ∈ inputs.captures, capture.id = inputs.companyfactsCaptureId ∧ body.length = capture.byteCount ∧
      env.sha256 body = capture.bodySha256) ∧
    ∀ item ∈ inputs.captures, item.fetchedAt ≤ item.completedAt ∧ item.completedAt ≤ inputs.capturedBefore

/-- The filings are of the issuer, and their metadata was captured. -/
def FilingsValid : Prop :=
  (inputs.filings.map (·.id)).Nodup ∧
    ∀ filing ∈ inputs.filings, filing.issuerId = inputs.issuerId ∧
      filing.metadataCaptureId ∈ inputs.captures.map (·.id)

/-- A request is of a filing and of the issuer, names its concepts once and cites its evidence. -/
def RequestValid (request : CoverageRequest) : Prop :=
  (request.filingVersionId ∈ inputs.filings.map (·.id) ∧ request.scope.issuerId = inputs.issuerId) ∧
    (request.concepts ≠ [] ∧ request.concepts.Nodup) ∧
    (∀ start ∈ request.period.startDate, start ≤ request.period.endDate) ∧
    (request.evidenceLocator ≠ "" ∧ request.scope.descriptorJson ≠ "") ∧
    env.sha256Text request.scope.descriptorJson = request.scope.contentSha256

/-- `_validate` accepts. -/
def Valid (body : List UInt8) : Prop :=
  canonicalCik (.scalar (.text inputs.cik)) = some inputs.cik ∧
    (inputs.requests ≠ [] ∧ inputs.captures ≠ [] ∧ inputs.filings ≠ []) ∧
    (inputs.parserRevision ≠ "" ∧ inputs.normalizerRevision ≠ "" ∧ inputs.authorityPolicyRevision ≠ "") ∧
    inputs.CapturesValid env body ∧ inputs.FilingsValid ∧
    ((inputs.requests.map (·.id)).Nodup ∧ ∀ request ∈ inputs.requests, inputs.RequestValid env request) ∧
    inputs.filingEventIds.Nodup ∧ inputs.additionalQualityFlagIds.Nodup ∧ inputs.attemptIds.Nodup

instance (body : List UInt8) : Decidable (inputs.CapturesValid env body) := inferInstanceAs (Decidable (_ ∧ _))

instance : Decidable inputs.FilingsValid := inferInstanceAs (Decidable (_ ∧ _))

instance (request : CoverageRequest) : Decidable (inputs.RequestValid env request) := inferInstanceAs (Decidable (_ ∧ _))

set_option synthInstance.maxSize 400 in
instance (body : List UInt8) : Decidable (inputs.Valid env body) := inferInstanceAs (Decidable (_ ∧ _))

/-- The filing of a request. -/
def filingOf (request : CoverageRequest) : Option FilingMetadata :=
  inputs.filings.find? fun filing => filing.id = request.filingVersionId

/-- A rule is of a request's filing, period and scope and of a concept, and cites its review. -/
def RuleMatches (filing : FilingMetadata) (request : CoverageRequest) (concept : Concept) (rule : MappingRule) : Prop :=
  (rule.cik = inputs.cik ∧ filing.accession ∈ rule.accessions ∧ rule.concept = concept) ∧
    (rule.scopeId = request.scope.id ∧ rule.scopeContentSha256 = request.scope.contentSha256 ∧
      rule.scopeKind = request.scope.scopeKind ∧ rule.instrumentId = request.scope.instrumentId) ∧
    (rule.periodStart = request.period.startDate ∧ rule.periodEnd = request.period.endDate) ∧
    (rule.statementFamily = request.statementFamily ∧ rule.reportingBasis = request.reportingBasis) ∧
    rule.unitKey = conceptUnit concept request.currency.unitKey ∧ rule.evidenceReferences ≠ [] ∧ rule.reference ≠ ""

instance (filing : FilingMetadata) (request : CoverageRequest) (concept : Concept) (rule : MappingRule) :
    Decidable (inputs.RuleMatches filing request concept rule) := inferInstanceAs (Decidable (_ ∧ _))

/-- `_rules`. -/
def rulesFor (filing : FilingMetadata) (request : CoverageRequest) (concept : Concept) : List MappingRule :=
  inputs.rules.filter fun rule => inputs.RuleMatches filing request concept rule

end NormalizationInput

/-! ### Bundles -/

/-- What a statement covers. -/
structure Coverage where
  id : Uuid
  filingVersionId : Uuid
  periodId : Uuid
  statementFamily : String
  reportingBasis : String
  scopeId : Uuid
  currencyUnitId : Option Uuid
  authorityClass : String
  assurance : String
  coverageState : String
  evidenceLocator : String
  periodLabel : Option String
deriving DecidableEq

/-- A row that was observed. -/
structure Observation where
  id : Uuid
  sourceCaptureId : Uuid
  filingVersionId : Uuid
  sourceLocator : String
  nameSpace : String
  tag : String
  periodId : Uuid
  unitId : Uuid
  semanticScopeId : Option Uuid
  numericValue : Option Decimal
  valueState : String
  originalNumericText : Option String
  parserRevision : String
  transformMetadata : String
  rawMetadata : String
deriving DecidableEq

/-- What has been found of a concept. -/
structure Resolution where
  id : Uuid
  coverageId : Uuid
  conceptStd : Concept
  semanticScopeId : Uuid
  instrumentId : Option Uuid
  unitId : Uuid
  status : FactStatus
  selectedObservationId : Option Uuid
  reason : Option String
deriving DecidableEq

/-- What has become of an observation that was considered. -/
inductive Disposition where
  | selected
  | conflicting
  | rejected
deriving DecidableEq, Repr

/-- An observation that was considered for a resolution. -/
structure Candidate where
  resolutionId : Uuid
  observationId : Uuid
  ruleReference : String
  disposition : Disposition
  explanation : String
deriving DecidableEq

/-- A flag of a request or of a resolution; its evidence is a locator and a capture. -/
structure QualityFlag where
  id : Uuid
  resolutionId : Option Uuid
  issuerId : Uuid
  periodId : Option Uuid
  ruleKey : String
  severity : String
  message : String
  evidenceReferences : String × Uuid
deriving DecidableEq

/-- What a normalization returns. -/
structure NormalizationBundle where
  inputs : NormalizationInput
  periods : List PeriodSpec
  units : List UnitSpec
  scopes : List ScopeSpec
  filings : List FilingMetadata
  coverage : List Coverage
  observations : List Observation
  resolutions : List Resolution
  candidates : List Candidate
  qualityFlags : List QualityFlag
  inputManifestHash : String
  outputManifestHash : String
  originalHistoryComplete : Bool

end EquityEval.Normalization
