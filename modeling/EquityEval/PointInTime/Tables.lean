import EquityEval.Arithmetic.Decimal
import EquityEval.Ingestion.Tables

/-!
# The tables of financial evidence

A normalization batch reads captures and says which statements of which filing versions they cover,
and which observation resolves each concept of a covered statement. Quality flags and filing events
restrict what the statements can be used for.
-/

namespace EquityEval.PointInTime

open Relational Workflow Ingestion DecimalArithmetic

/-! ### Filings -/

/-- A row of `filings`. -/
structure Filing where
  id : Uuid
  issuerId : Uuid
  accession : String
deriving DecidableEq, Repr

/-- The constraints of `filings`. -/
abbrev FilingsValid (rows : List Filing) : Prop :=
  UniqueBy Filing.id rows ∧ UniqueBy (fun f => (f.issuerId, f.accession)) rows ∧ ∀ f ∈ rows, Nonblank f.accession

/-- How the time zone of an acceptance is known. -/
inductive AcceptanceTimeBasis where
  | verifiedTimezone
  | unverified
deriving DecidableEq, Repr

/-- A row of `filing_versions`. -/
structure FilingVersion where
  id : Uuid
  filingId : Uuid
  metadataCaptureId : Uuid
  filedDate : Day
  acceptanceAt : Option Instant
  acceptanceTimeBasis : Option AcceptanceTimeBasis
  metadataHash : String
deriving DecidableEq, Repr

/-- The constraints of `filing_versions`. -/
abbrev VersionsValid (rows : List FilingVersion) : Prop :=
  UniqueBy FilingVersion.id rows ∧ UniqueBy (fun f => (f.filingId, f.metadataCaptureId, f.metadataHash)) rows ∧
    ∀ f ∈ rows, isSha256 f.metadataHash ∧ (f.acceptanceAt = none ↔ f.acceptanceTimeBasis = none)

/-! ### Batches -/

/-- The state of a batch. -/
inductive BatchState where
  | building
  | published
  | failed
deriving DecidableEq, Repr

/-- A row of `normalization_batches`. -/
structure NormalizationBatch where
  id : Uuid
  issuerId : Uuid
  mappingRevisionId : Uuid
  normalizerRevision : String
  sourceAuthorityPolicyRevision : String
  createdAt : Instant
  publishedAt : Option Instant := none
  state : BatchState := .building
  inputManifestHash : Option String := none
  outputManifestHash : Option String := none
deriving DecidableEq, Repr

/-- The checks of a row of `normalization_batches`. -/
abbrev NormalizationBatch.Checked (b : NormalizationBatch) : Prop :=
  Nonblank b.normalizerRevision ∧ Nonblank b.sourceAuthorityPolicyRevision ∧
    (∀ hash ∈ b.inputManifestHash, isSha256 hash) ∧ (∀ hash ∈ b.outputManifestHash, isSha256 hash) ∧
    ((b.state = .published ∧ (∃ published ∈ b.publishedAt, b.createdAt ≤ published) ∧ b.inputManifestHash ≠ none ∧
        b.outputManifestHash ≠ none) ∨ (b.state ≠ .published ∧ b.publishedAt = none))

set_option synthInstance.maxSize 400 in
instance (b : NormalizationBatch) : Decidable b.Checked := inferInstance

/-- The constraints of `normalization_batches`. -/
abbrev BatchesValid (rows : List NormalizationBatch) : Prop :=
  UniqueBy NormalizationBatch.id rows ∧ ∀ b ∈ rows, b.Checked

/-- A row of `normalization_inputs`. -/
structure NormalizationInput where
  batchId : Uuid
  sourceCaptureId : Uuid
  role : String
deriving DecidableEq, Repr

/-- The constraints of `normalization_inputs`. -/
abbrev InputsValid (rows : List NormalizationInput) : Prop := rows.Nodup ∧ ∀ i ∈ rows, Nonblank i.role

/-! ### Coverage and resolutions -/

/-- A reported concept. -/
inductive Concept where
  | revenue
  | costOfRevenue
  | grossProfit
  | researchAndDevelopmentExpense
  | sellingGeneralAndAdministrativeExpense
  | operatingExpenses
  | operatingIncome
  | interestExpense
  | pretaxIncome
  | incomeTaxExpense
  | netIncomeParent
  | netIncomeConsolidated
  | epsBasic
  | epsDiluted
  | weightedAverageSharesBasic
  | weightedAverageSharesDiluted
  | commonSharesOutstanding
  | cashAndCashEquivalents
  | shortTermInvestments
  | accountsReceivableNet
  | inventoryNet
  | currentAssets
  | propertyPlantEquipmentNet
  | goodwill
  | intangibleAssetsNetExcludingGoodwill
  | totalAssets
  | accountsPayableCurrent
  | currentDebt
  | longTermDebtNoncurrent
  | currentLiabilities
  | totalLiabilities
  | equityParent
  | equityIncludingNoncontrollingInterests
  | noncontrollingInterests
  | cashFromOperatingActivities
  | capitalExpendituresPpe
  | depreciationAndAmortization
  | shareBasedCompensation
  | dividendsPaid
  | shareRepurchases
deriving DecidableEq, Repr

/-- The family of a statement; `unlisted` stands for a text that the table refuses. -/
inductive StatementFamily where
  | income
  | balanceSheet
  | cashFlow
  | other
  | unlisted (text : String)
deriving DecidableEq, Repr

/-- The authority of a covered statement. -/
inductive AuthorityClass where
  | periodicComplete
  | reviewedEquivalent
  | preliminary
  | unknown
deriving DecidableEq, Repr

/-- The assurance of a covered statement. -/
inductive Assurance where
  | audited
  | unaudited
  | unknown
deriving DecidableEq, Repr

/-- Whether a statement was found. -/
inductive CoverageState where
  | covered
  | sourceMissing
  | unresolved
deriving DecidableEq, Repr

/-- A row of `statement_coverage`. -/
structure StatementCoverage where
  id : Uuid
  batchId : Uuid
  filingVersionId : Uuid
  periodId : Uuid
  statementFamily : StatementFamily
  reportingBasis : String
  scopeId : Uuid
  currencyUnitId : Option Uuid
  authorityClass : AuthorityClass
  assurance : Assurance
  coverageState : CoverageState
  evidenceLocator : String
deriving DecidableEq, Repr

/-- What a batch covers at most once. -/
def StatementCoverage.coordinate (c : StatementCoverage) :
    Uuid × Uuid × Uuid × StatementFamily × String × Uuid × Option Uuid :=
  (c.batchId, c.filingVersionId, c.periodId, c.statementFamily, c.reportingBasis, c.scopeId, c.currencyUnitId)

/-- The checks of a row of `statement_coverage`. -/
abbrev StatementCoverage.Checked (c : StatementCoverage) : Prop :=
  c.statementFamily ∈ [.income, .balanceSheet, .cashFlow, .other] ∧ Nonblank c.reportingBasis ∧
    Nonblank c.evidenceLocator ∧ (c.currencyUnitId ≠ none ∨ c.coverageState = .unresolved)

set_option synthInstance.maxSize 400 in
instance (c : StatementCoverage) : Decidable c.Checked := inferInstance

/-- The constraints of `statement_coverage`. -/
abbrev CoverageValid (rows : List StatementCoverage) : Prop :=
  UniqueBy StatementCoverage.id rows ∧ UniqueBy StatementCoverage.coordinate rows ∧ ∀ c ∈ rows, c.Checked

set_option synthInstance.maxSize 400 in
instance (rows : List StatementCoverage) : Decidable (CoverageValid rows) := inferInstance

/-- What a source says of a value. -/
inductive ValueState where
  | numeric
  | sourceNil
  | unparseable
deriving DecidableEq, Repr

/-- A row of `source_observations`; the metadata of the transform are a JSON text with sorted keys. -/
structure SourceObservation where
  id : Uuid
  sourceCaptureId : Uuid
  filingVersionId : Uuid
  sourceLocator : String
  sourceNamespace : String
  tag : String
  periodId : Uuid
  unitId : Uuid
  semanticScopeId : Option Uuid
  numericValue : Option Decimal
  valueState : ValueState
  originalNumericText : Option String
  transformMetadata : String
deriving DecidableEq, Repr

/-- The checks of a row of `source_observations`. -/
abbrev SourceObservation.Checked (o : SourceObservation) : Prop :=
  Nonblank o.sourceLocator ∧ Nonblank o.sourceNamespace ∧ Nonblank o.tag ∧
    ((o.valueState = .numeric ∧ o.numericValue ≠ none ∧ ∃ text ∈ o.originalNumericText, Nonblank text) ∨
      (o.valueState ≠ .numeric ∧ o.numericValue = none))

/-- The constraints of `source_observations`. -/
abbrev ObservationsValid (rows : List SourceObservation) : Prop :=
  UniqueBy SourceObservation.id rows ∧ UniqueBy (fun o => (o.sourceCaptureId, o.sourceLocator)) rows ∧
    ∀ o ∈ rows, o.Checked

/-- The status of a resolution or of a selected fact; only a fact is `unavailable`. -/
inductive FactStatus where
  | observed
  | sourceNil
  | missing
  | ambiguous
  | unsupportedScope
  | staleSource
  | unavailable
deriving DecidableEq, Repr

/-- A row of `fact_resolutions`. -/
structure FactResolution where
  id : Uuid
  coverageId : Uuid
  conceptStd : Concept
  semanticScopeId : Uuid
  instrumentId : Option Uuid
  unitId : Uuid
  status : FactStatus
  selectedObservationId : Option Uuid
  reason : Option String
deriving DecidableEq, Repr

/-- What a covered statement resolves at most once. -/
def FactResolution.coordinate (r : FactResolution) : Uuid × Concept × Uuid × Option Uuid × Uuid :=
  (r.coverageId, r.conceptStd, r.semanticScopeId, r.instrumentId, r.unitId)

/-- The checks of a row of `fact_resolutions`. -/
abbrev FactResolution.Checked (r : FactResolution) : Prop :=
  r.status ≠ .unavailable ∧ (r.status ∈ [.observed, .sourceNil] ↔ r.selectedObservationId ≠ none) ∧
    (r.status = .observed ∨ ∃ reason ∈ r.reason, Nonblank reason)

/-- The constraints of `fact_resolutions`. -/
abbrev ResolutionsValid (rows : List FactResolution) : Prop :=
  UniqueBy FactResolution.id rows ∧ UniqueBy FactResolution.coordinate rows ∧ ∀ r ∈ rows, r.Checked

set_option synthInstance.maxSize 400 in
instance (rows : List FactResolution) : Decidable (ResolutionsValid rows) := inferInstance

/-! ### Flags and events -/

/-- The severity of a quality flag. -/
inductive Severity where
  | info
  | warning
  | error
  | blocking
deriving DecidableEq, Repr

/-- A row of `data_quality_flags`. -/
structure DataQualityFlag where
  id : Uuid
  batchId : Option Uuid
  resolutionId : Option Uuid
  issuerId : Uuid
  securityId : Option Uuid
  periodId : Option Uuid
  ruleKey : String
  severity : Severity
  message : String
  evidenceReferences : List String
deriving DecidableEq, Repr

/-- The constraints of `data_quality_flags`. -/
abbrev FlagsValid (rows : List DataQualityFlag) : Prop :=
  UniqueBy DataQualityFlag.id rows ∧
    ∀ f ∈ rows, Nonblank f.ruleKey ∧ Nonblank f.message ∧ f.evidenceReferences ≠ []

/-- The kind of a filing event. -/
inductive EventKind where
  | nonReliance
  | withdrawal
  | formalCorrection
  | accountingRecast
  | sourceCorrection
  | reinstatement
deriving DecidableEq, Repr

/-- A row of `filing_events`. -/
structure FilingEvent where
  id : Uuid
  issuerId : Uuid
  creationTransactionId : ℕ
  eventKind : EventKind
  announcedDate : Day
  sourceFilingVersionId : Uuid
deriving DecidableEq, Repr

/-- The constraints of `filing_events`. -/
abbrev EventsValid (rows : List FilingEvent) : Prop := UniqueBy FilingEvent.id rows

/-- A row of `filing_event_scopes`. -/
structure FilingEventScope where
  eventId : Uuid
  filingId : Option Uuid
  periodId : Option Uuid
  conceptStd : Option Concept
deriving DecidableEq, Repr

/-- The constraints of `filing_event_scopes`. -/
abbrev ScopesValid (rows : List FilingEventScope) : Prop :=
  rows.Nodup ∧ ∀ s ∈ rows, s.filingId ≠ none ∨ s.periodId ≠ none

/-! ### The store -/

/-- The tables of evidence, with the identifier of the current transaction. -/
structure Store where
  transaction : ℕ
  captures : Table SourceCapture CapturesValid
  filings : Table Filing FilingsValid
  versions : Table FilingVersion VersionsValid
  batches : Table NormalizationBatch BatchesValid
  inputs : Table NormalizationInput InputsValid
  coverage : Table StatementCoverage CoverageValid
  observations : Table SourceObservation ObservationsValid
  resolutions : Table FactResolution ResolutionsValid
  flags : Table DataQualityFlag FlagsValid
  events : Table FilingEvent EventsValid
  scopes : Table FilingEventScope ScopesValid

/-- The empty tables. -/
def Store.empty : Store where
  transaction := 1
  captures := ⟨[], Ingestion.capturesValid_nil⟩
  filings := ⟨[], by decide⟩
  versions := ⟨[], by decide⟩
  batches := ⟨[], by decide⟩
  inputs := ⟨[], by decide⟩
  coverage := ⟨[], by decide⟩
  observations := ⟨[], by decide⟩
  resolutions := ⟨[], by decide⟩
  flags := ⟨[], by decide⟩
  events := ⟨[], by decide⟩
  scopes := ⟨[], by decide⟩

end EquityEval.PointInTime
