import EquityEval.Market.Policies
import Mathlib.Data.Rat.Defs
import Mathlib.Data.Fintype.Pi

/-!
# Batches of market data

A batch is a normalized response of a provider: prices of a quote, or observations of a macroeconomic
series. Its inputs, quality flags, prices and observations are rows of their own that name the batch.
-/

namespace EquityEval.Market

open Relational Workflow Ingestion

/-- A row that belongs to a batch. -/
structure Child (ι : Type) where
  batchId : Uuid
  item : ι
deriving DecidableEq, Repr

/-! ### Identities of quotes and definitions of series -/

/-- A row of `provider_quote_bindings`. -/
structure QuoteBinding where
  id : Uuid
  sourceId : Uuid
  quoteIdentifierId : Uuid
  securityId : Uuid
  providerSymbol : String
  providerInstrumentKey : Option String
  validFrom : Day
  validTo : Option Day
  identityCaptureId : Uuid
  sourceLocator : String
  identityReviewRevision : String
  reviewedAt : Instant
  reviewedBy : String
  contentSha256 : String
deriving DecidableEq, Repr

/-- The checks of a row of `provider_quote_bindings`. -/
abbrev QuoteBinding.Checked (b : QuoteBinding) : Prop :=
  Nonblank b.providerSymbol ∧ (∀ key ∈ b.providerInstrumentKey, Nonblank key) ∧ (∀ day ∈ b.validTo, b.validFrom < day) ∧
    Nonblank b.sourceLocator ∧ Nonblank b.identityReviewRevision ∧ Nonblank b.reviewedBy ∧ isSha256 b.contentSha256

/-- The constraints of `provider_quote_bindings`. -/
abbrev QuoteBindingsValid (rows : List QuoteBinding) : Prop :=
  UniqueBy QuoteBinding.id rows ∧ UniqueBy (fun b => (b.sourceId, b.quoteIdentifierId, b.contentSha256)) rows ∧ ∀ b ∈ rows, b.Checked

/-- A row of `macro_series_definitions`. -/
structure SeriesDefinition where
  id : Uuid
  sourceId : Uuid
  sourceSeriesKey : String
  metadataCaptureId : Uuid
  sourceLocator : String
  contentSha256 : String
  definitionRevision : String
  title : String
  unitsText : String
  unitCode : String
  unitMultiplier : ℚ
  frequency : String
  seasonalAdjustment : String
  geography : String
  referenceDateConvention : String
  sourceReleaseKey : Option String
  upstreamSourceName : String
  upstreamRightsReference : String
  definitionAsOfDate : Option Day
  definitionAsOfBasis : String
deriving DecidableEq, Repr

/-- The checks of a row of `macro_series_definitions`. -/
abbrev SeriesDefinition.Checked (d : SeriesDefinition) : Prop :=
  (∀ text ∈ [d.sourceSeriesKey, d.sourceLocator, d.definitionRevision, d.title, d.unitsText, d.geography, d.referenceDateConvention,
      d.upstreamSourceName, d.upstreamRightsReference], Nonblank text) ∧ isSha256 d.contentSha256 ∧
    d.unitCode ∈ ["percent_per_year", "percent", "percentage_points", "basis_points", "index", "count"] ∧ 0 < d.unitMultiplier ∧
    d.frequency ∈ ["daily", "business_day", "weekly", "monthly", "quarterly", "annual"] ∧
    d.seasonalAdjustment ∈ ["adjusted", "not_adjusted", "not_applicable", "unknown"] ∧
    d.definitionAsOfBasis ∈ ["source_supplied", "capture_only", "unknown"] ∧
    (d.definitionAsOfBasis = "source_supplied" ↔ d.definitionAsOfDate ≠ none)

set_option synthInstance.maxSize 400 in
instance (d : SeriesDefinition) : Decidable d.Checked := inferInstance

/-- The constraints of `macro_series_definitions`. -/
abbrev SeriesDefinitionsValid (rows : List SeriesDefinition) : Prop :=
  UniqueBy SeriesDefinition.id rows ∧
    UniqueBy (fun d => (d.sourceId, d.sourceSeriesKey, d.metadataCaptureId, d.sourceLocator, d.definitionRevision)) rows ∧
    ∀ d ∈ rows, d.Checked

/-! ### Batches -/

/-- What a batch holds. -/
inductive DataKind where
  | price
  | macroSeries
deriving DecidableEq, Repr

/-- Which vintage of its data a source gave. -/
inductive VintageMode where
  | currentProviderHistory
  | sourceAsOfDate
deriving DecidableEq, Repr

/-- How much of the request a batch covers. -/
inductive CoverageState where
  | complete
  | partially
  | unknown
  | unavailable
deriving DecidableEq, Repr

/-- The columns of a batch that its bundle gives and that a batch of the same input has to repeat. -/
structure BatchContent where
  dataKind : DataKind
  sourceId : Uuid
  policyRevisionId : Uuid
  quoteIdentifierId : Option Uuid
  securityId : Option Uuid
  quoteBindingId : Option Uuid
  sourceSeriesKey : Option String
  seriesDefinitionId : Option Uuid
  requestedStart : Day
  requestedEnd : Day
  sourceVintageMode : VintageMode
  sourceAsOfDate : Option Day
  retrievalCutoff : Option Instant
  parserRevision : String
  normalizerRevision : String
  selectionPolicyRevision : String
  inputManifestHash : String
  outputManifestHash : String
  manifestBlobKey : String
  manifestBodySha256 : String
  manifestByteCount : ℤ
  coverageState : CoverageState
deriving DecidableEq, Repr

/-- The checks of a batch about its content. -/
abbrev BatchContent.Checked (b : BatchContent) : Prop :=
  Nonblank b.parserRevision ∧ Nonblank b.normalizerRevision ∧ Nonblank b.selectionPolicyRevision ∧ isSha256 b.inputManifestHash ∧
    isSha256 b.outputManifestHash ∧ Nonblank b.manifestBlobKey ∧ isSha256 b.manifestBodySha256 ∧ 0 < b.manifestByteCount ∧
    b.requestedStart ≤ b.requestedEnd ∧ (b.sourceVintageMode = .sourceAsOfDate ↔ b.sourceAsOfDate ≠ none) ∧
    ((b.dataKind = .price ∧ b.securityId ≠ none ∧ b.quoteIdentifierId ≠ none ∧ b.sourceSeriesKey = none ∧ b.seriesDefinitionId = none) ∨
      (b.dataKind = .macroSeries ∧ b.securityId = none ∧ b.quoteIdentifierId = none ∧ b.quoteBindingId = none ∧
        ∃ key ∈ b.sourceSeriesKey, Nonblank key))

/-- The state of a batch. -/
inductive BatchState where
  | building
  | published (publishedAt : Instant)
  | failed
deriving DecidableEq, Repr

/-- The batch is published. -/
def BatchState.isPublished : BatchState → Bool
  | published _ => true
  | _ => false

/-- A row of `market_data_batches`. -/
structure MarketBatch where
  id : Uuid
  content : BatchContent
  originStageAttemptId : Uuid
  createdAt : Instant
  state : BatchState
deriving DecidableEq, Repr

/-- The source and the input of a batch. -/
def MarketBatch.input (b : MarketBatch) : Uuid × String := (b.content.sourceId, b.content.inputManifestHash)

/-- The batch is published. -/
abbrev MarketBatch.Published (b : MarketBatch) : Prop := b.state.isPublished = true

/-- A batch is not published before it was created. -/
def MarketBatch.Timed (b : MarketBatch) : Prop :=
  match b.state with
  | .published publishedAt => b.createdAt ≤ publishedAt
  | _ => True

instance (b : MarketBatch) : Decidable b.Timed := by
  unfold MarketBatch.Timed
  split <;> infer_instance

set_option synthInstance.maxSize 400 in
instance (b : BatchContent) : Decidable b.Checked := inferInstance

/-- The constraints of `market_data_batches`. -/
abbrev BatchesValid (rows : List MarketBatch) : Prop :=
  UniqueBy MarketBatch.id rows ∧ UniqueBy MarketBatch.input (rows.filter fun b => decide b.Published) ∧
    ∀ b ∈ rows, b.content.Checked ∧ b.Timed

/-! ### Inputs and flags -/

/-- What an input is for. -/
inductive InputRole where
  | observations
  | seriesDefinition
  | quoteIdentity
  | calendar
  | corporateActionEvidence
  | fetchOutcome
deriving DecidableEq, Repr

/-- A row of `market_data_batch_inputs`. -/
structure BatchInput where
  id : Uuid
  captureId : Option Uuid
  attemptId : Option Uuid
  role : InputRole
deriving DecidableEq, Repr

/-- The checks of a row of `market_data_batch_inputs`. -/
abbrev BatchInput.Checked (i : BatchInput) : Prop :=
  (i.captureId = none ↔ i.attemptId ≠ none) ∧ (i.attemptId ≠ none → i.role = .fetchOutcome)

/-- The constraints of `market_data_batch_inputs`. -/
abbrev InputsValid (rows : List (Child BatchInput)) : Prop :=
  UniqueBy (fun c => c.item.id) rows ∧
    UniqueBy (fun c => (c.batchId, c.item.captureId, c.item.role)) (rows.filter fun c => decide (c.item.captureId ≠ none)) ∧
    UniqueBy (fun c => (c.batchId, c.item.attemptId, c.item.role)) (rows.filter fun c => decide (c.item.attemptId ≠ none)) ∧
    ∀ c ∈ rows, c.item.Checked

/-- The fields of a price. -/
inductive PriceField where
  | open'
  | high
  | low
  | close
  | volume
  | adjOpen
  | adjHigh
  | adjLow
  | adjClose
  | adjVolume
  | divCash
  | splitFactor
deriving DecidableEq, Repr

/-- All fields of a price. -/
def PriceField.fields : List PriceField :=
  [.open', .high, .low, .close, .volume, .adjOpen, .adjHigh, .adjLow, .adjClose, .adjVolume, .divCash, .splitFactor]

instance : Fintype PriceField := .ofList PriceField.fields fun field => by cases field <;> decide

/-- The fields that a flag can be about: those of a price, and the value of an observation. -/
inductive FieldKey where
  | price (field : PriceField)
  | value
deriving DecidableEq, Repr

/-- How severe a flag is. -/
inductive Severity where
  | info
  | warning
  | error
  | blocking
deriving DecidableEq, Repr

/-- A row of `market_data_quality_flags`. -/
structure QualityFlag where
  id : Uuid
  referenceDate : Option Day
  fieldKey : Option FieldKey
  ruleKey : String
  severity : Severity
  message : String
  captureId : Option Uuid
  attemptId : Option Uuid
  sourceLocator : Option String
  raisedAt : Instant
deriving DecidableEq, Repr

/-- The checks of a row of `market_data_quality_flags`. -/
abbrev QualityFlag.Checked (f : QualityFlag) : Prop :=
  Nonblank f.ruleKey ∧ Nonblank f.message ∧ (∀ locator ∈ f.sourceLocator, Nonblank locator) ∧ (f.sourceLocator = none ∨ f.captureId ≠ none)

/-- The constraints of `market_data_quality_flags`. -/
abbrev FlagsValid (rows : List (Child QualityFlag)) : Prop := UniqueBy (fun c => c.item.id) rows ∧ ∀ c ∈ rows, c.item.Checked

/-! ### Values -/

/-- What became of a value of the source. -/
inductive ValueState where
  | observed
  | unparseable
  | sourceMissing
  | sourceNull
  | missing
deriving DecidableEq, Repr

/-- A value with its state and its text. -/
structure Measured where
  value : Option ℚ
  state : ValueState
  text : Option String
deriving DecidableEq, Repr

/-- `market_numeric_valid`. -/
def Measured.Valid (m : Measured) (ofSeries : Bool) : Prop :=
  match m.state with
  | .observed => m.value ≠ none ∧ ∃ text ∈ m.text, Nonblank text
  | .unparseable => m.value = none
  | .sourceMissing => ofSeries = true ∧ m.value = none
  | .sourceNull => ofSeries = false ∧ m.value = none ∧ m.text = some "null"
  | .missing => ofSeries = false ∧ m.value = none ∧ m.text = none

instance (m : Measured) (ofSeries : Bool) : Decidable (m.Valid ofSeries) := by
  unfold Measured.Valid
  split <;> infer_instance

/-- When the source published a row: `market_precision_valid`. -/
inductive Publication where
  | unknown
  | date (day : Day)
  | instant (day : Option Day) (at' : Instant)
deriving DecidableEq, Repr

/-- A row of `price_daily`. -/
structure PriceDaily where
  id : Uuid
  sessionDate : Day
  sourceCaptureId : Uuid
  sourceLocator : String
  quoteBindingId : Uuid
  quoteIdentifierId : Uuid
  securityId : Uuid
  quoteCurrency : String
  dividendCurrency : Option String
  sourceDateText : String
  sessionTimezone : Option String
  publication : Publication
  fields : PriceField → Measured
  adjustmentBasis : String
  adjustmentVintageBasis : String
  adjustmentVintageDate : Option Day
  transformRevision : String
deriving DecidableEq

/-- `currency ~ '^[A-Z]{3}$'`. -/
def isCurrency (text : String) : Bool := text.length = 3 && text.toList.all fun c => 'A' ≤ c && c ≤ 'Z'

/-- The checks of a row of `price_daily`. -/
abbrev PriceDaily.Checked (p : PriceDaily) : Prop :=
  Nonblank p.sourceLocator ∧ isCurrency p.quoteCurrency ∧ (∀ currency ∈ p.dividendCurrency, isCurrency currency) ∧
    Nonblank p.sourceDateText ∧ (∀ field, (p.fields field).Valid false) ∧
    p.adjustmentBasis ∈ ["split_and_dividend", "split_only", "unadjusted", "unknown"] ∧
    p.adjustmentVintageBasis ∈ ["provider_supplied", "capture_only", "unknown"] ∧ Nonblank p.transformRevision ∧
    (p.adjustmentVintageBasis = "provider_supplied" ↔ p.adjustmentVintageDate ≠ none) ∧
    (∀ volume ∈ (p.fields .volume).value, 0 ≤ volume) ∧ (∀ volume ∈ (p.fields .adjVolume).value, 0 ≤ volume) ∧
    ∀ factor ∈ (p.fields .splitFactor).value, 0 < factor

set_option synthInstance.maxSize 400 in
instance (p : PriceDaily) : Decidable p.Checked := inferInstance

/-- The constraints of `price_daily`. -/
abbrev PricesValid (rows : List (Child PriceDaily)) : Prop :=
  UniqueBy (fun c => (c.item.sessionDate, c.item.id)) rows ∧
    UniqueBy (fun c => (c.batchId, c.item.sourceCaptureId, c.item.sourceLocator, c.item.sessionDate)) rows ∧ ∀ c ∈ rows, c.item.Checked

/-- On what the vintage of an observation rests. -/
inductive VintageBasis where
  | sourceInterval
  | requestedAsOf
  | currentOnly
  | unknown
deriving DecidableEq, Repr

/-- A row of `macro_observations`. -/
structure MacroObservation where
  id : Uuid
  referenceDate : Day
  seriesDefinitionId : Uuid
  sourceCaptureId : Uuid
  sourceLocator : String
  sourceDateText : String
  value : Measured
  sourceObservationStatus : Option String
  transformRevision : String
  referenceEndDate : Option Day
  sourceRealtime : Option (Day × Day)
  sourceVintageBasis : VintageBasis
  requestedSourceAsOf : Option Day
  publication : Publication
deriving DecidableEq, Repr

/-- The checks of a row of `macro_observations`. -/
abbrev MacroObservation.Checked (o : MacroObservation) : Prop :=
  Nonblank o.sourceLocator ∧ Nonblank o.sourceDateText ∧ Nonblank o.transformRevision ∧
    (∀ day ∈ o.referenceEndDate, o.referenceDate ≤ day) ∧ o.value.Valid true ∧ (∀ interval ∈ o.sourceRealtime, interval.1 ≤ interval.2) ∧
    (o.sourceVintageBasis = .sourceInterval → o.sourceRealtime ≠ none) ∧
    (o.sourceVintageBasis = .requestedAsOf → o.requestedSourceAsOf ≠ none) ∧
    (o.sourceVintageBasis ∈ [.currentOnly, .unknown] → o.requestedSourceAsOf = none) ∧
    (o.sourceVintageBasis = .unknown → o.sourceRealtime = none)

set_option synthInstance.maxSize 400 in
instance (o : MacroObservation) : Decidable o.Checked := inferInstance

/-- The constraints of `macro_observations`. -/
abbrev ObservationsValid (rows : List (Child MacroObservation)) : Prop :=
  UniqueBy (fun c => (c.item.referenceDate, c.item.id)) rows ∧
    UniqueBy (fun c => (c.batchId, c.item.sourceCaptureId, c.item.sourceLocator, c.item.referenceDate)) rows ∧
    ∀ c ∈ rows, c.item.Checked

/-! ### The tables -/

/-- The tables of market data. -/
structure MarketStore where
  bindings : Table QuoteBinding QuoteBindingsValid
  definitions : Table SeriesDefinition SeriesDefinitionsValid
  batches : Table MarketBatch BatchesValid
  inputs : Table (Child BatchInput) InputsValid
  flags : Table (Child QualityFlag) FlagsValid
  prices : Table (Child PriceDaily) PricesValid
  macros : Table (Child MacroObservation) ObservationsValid

/-- The tables before anything was published. -/
def MarketStore.empty : MarketStore where
  bindings := ⟨[], by decide⟩
  definitions := ⟨[], by decide⟩
  batches := ⟨[], by decide⟩
  inputs := ⟨[], by decide⟩
  flags := ⟨[], by decide⟩
  prices := ⟨[], by decide⟩
  macros := ⟨[], by decide⟩

end EquityEval.Market
