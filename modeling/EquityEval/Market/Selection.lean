import EquityEval.Discovery.Inventory
import EquityEval.Market.System
import EquityEval.Sorting.Keys
import EquityEval.Vintage.Manifest

/-!
# Selections of market data

A selection reads the published batches that are eligible, takes the one of the newest response, and only then looks at its
rows. A backward selection first asks for the latest date that any eligible batch has a row of.
-/

namespace EquityEval.Market

open Relational Workflow Ingestion Sorting
open Discovery (sortedSet)
open Vintage (hasText isSpace)

/-! ### What is selected -/

/-- `MarketQualityFlag`. -/
structure MarketQualityFlag where
  id : Uuid
  ruleKey : String
  severity : Severity
  message : String
  referenceDate : Option Day
  fieldKey : Option FieldKey
  captureId : Option Uuid
  attemptId : Option Uuid
  sourceLocator : Option String
deriving DecidableEq, Repr

/-- `CaptureProvenance`. -/
structure CaptureProvenance where
  captureId : Uuid
  role : InputRole
  sourceId : Uuid
  sourceObjectKey : String
  requestUrl : String
  bodySha256 : Option String
  blobKey : Option String
  fetchedAt : Option Instant
  completedAt : Option Instant
deriving DecidableEq, Repr

/-- `MarketSelection`. No state of the value is `"unavailable"`. -/
structure MarketSelection where
  dataKind : DataKind
  sourceId : Uuid
  referenceDate : Day
  field : FieldKey
  value : Option ℚ := none
  valueState : Option ValueState := none
  usable : Bool := false
  originalValueText : Option String := none
  batchId : Option Uuid := none
  candidateBatchIds : List Uuid := []
  observationId : Option Uuid := none
  observationIds : List Uuid := []
  provenance : List CaptureProvenance := []
  attemptIds : List Uuid := []
  flags : List String := []
  qualityFlags : List MarketQualityFlag := []
  coverageState : Option CoverageState := none
  capturedAt : Option Instant := none
  evidenceKnownAt : Option Instant := none
  responseAt : Option Instant := none
  captureAge : Option ℤ := none
  referenceAgeDays : Option ℤ := none
  selectionDate : Option Day := none
  maxAgeDays : Option ℤ := none
  retrievalCutoff : Option Instant := none
  sourceAsOfDate : Option Day := none
  sourceKnownAt : Option Instant := none
  inputManifestHash : Option String := none
  outputManifestHash : Option String := none
  manifestBlobKey : Option String := none
  parserRevision : Option String := none
  normalizerRevision : Option String := none
  selectionPolicyRevision : Option String := none
  sourceLocator : Option String := none
  sourceDateText : Option String := none
  transformRevision : Option String := none
  publication : Option Publication := none
  currency : Option String := none
  quoteIdentifierId : Option Uuid := none
  securityId : Option Uuid := none
  quoteBindingId : Option Uuid := none
  adjustmentBasis : Option String := none
  adjustmentVintageBasis : Option String := none
  adjustmentVintageDate : Option Day := none
  sessionBasis : Option String := none
  sessionTimezone : Option String := none
  seriesKey : Option String := none
  seriesDefinitionId : Option Uuid := none
  unitCode : Option String := none
  unitsText : Option String := none
  unitMultiplier : Option ℚ := none
  frequency : Option String := none
  seasonalAdjustment : Option String := none
  definitionAsOfBasis : Option String := none
  definitionAsOfDate : Option Day := none
  sourceVintageBasis : Option VintageBasis := none
  sourceRealtime : Option (Day × Day) := none
  referenceEndDate : Option Day := none
  sourceObservationStatus : Option String := none

/-- What a selection raises. -/
inductive SelectionError where
  | value (message : String)
  | assertion
  | stopIteration
  | type
deriving DecidableEq, Repr

/-- The text of a role. -/
def InputRole.text : InputRole → String
  | observations => "observations"
  | seriesDefinition => "series_definition"
  | quoteIdentity => "quote_identity"
  | calendar => "calendar"
  | corporateActionEvidence => "corporate_action_evidence"
  | fetchOutcome => "fetch_outcome"

/-- The text of a state. -/
def ValueState.text : ValueState → String
  | observed => "observed"
  | unparseable => "unparseable"
  | sourceMissing => "source_missing"
  | sourceNull => "source_null"
  | missing => "missing"

/-! ### The responses under the batches -/

section

variable (s : State)

/-- The capture of an input. -/
def State.capture? (i : BatchInput) : Option SourceCapture :=
  i.captureId.bind fun id => s.captures.rows.find? fun c => c.id = id

/-- The attempt of an input. -/
def State.attempt? (i : BatchInput) : Option FetchAttempt :=
  i.attemptId.bind fun id => s.attempts.rows.find? fun a => a.id = id

/-- `coalesce(c.completed_at,a.finished_at,a.prepared_at)`. -/
def State.inputTime (i : BatchInput) : Option Instant :=
  ((s.capture? i).bind (·.completedAt)).or (((s.attempt? i).bind (·.finishedAt)).or ((s.attempt? i).map (·.preparedAt)))

/-- The inputs of a batch. -/
def State.inputsOf (batch : Uuid) : List BatchInput := (childrenOf s.store.inputs.rows batch).map (·.item)

/-- The input is a response or its outcome. -/
def BatchInput.responds (i : BatchInput) : Bool := i.role = .observations || i.role = .fetchOutcome

/-- Every input of a batch was known at the cutoff, if there is one. -/
def State.InputsEligible (cutoff : Option Instant) (batch : Uuid) : Prop :=
  s.inputsOf batch ≠ [] ∧ ∀ i ∈ s.inputsOf batch, ∃ time ∈ s.inputTime i, ∀ limit ∈ cutoff, time ≤ limit

instance (cutoff : Option Instant) (batch : Uuid) : Decidable (s.InputsEligible cutoff batch) := by
  unfold State.InputsEligible
  infer_instance

/-- A published batch with its evidence. -/
structure BatchRow where
  batch : MarketBatch
  publishedAt : Instant
  responseAt : Instant
  knownAt : Option Instant
  responseIds : List Uuid
deriving DecidableEq, Repr

/-- `ORDER BY evidence.response_at DESC,b.published_at DESC`. -/
def BatchRow.order (b : BatchRow) : ℤ ×ₗ ℤ := toLex (-b.responseAt, -b.publishedAt)

/-- What a query asks of the columns of a batch. -/
def MarketSelection.Asks (q : MarketSelection) (batchId : Option Uuid) (windowStart : Day) (b : MarketBatch) : Prop :=
  b.content.sourceId = q.sourceId ∧ b.content.dataKind = q.dataKind ∧ b.content.quoteIdentifierId = q.quoteIdentifierId ∧
    b.content.sourceSeriesKey = q.seriesKey ∧ b.content.requestedStart ≤ q.referenceDate ∧ windowStart ≤ b.content.requestedEnd ∧
    b.content.sourceAsOfDate = q.sourceAsOfDate ∧ ∀ id ∈ batchId, b.id = id

instance (q : MarketSelection) (batchId : Option Uuid) (windowStart : Day) (b : MarketBatch) :
    Decidable (q.Asks batchId windowStart b) := by
  unfold MarketSelection.Asks
  infer_instance

/-- The row of a batch, if it is eligible. -/
def State.batchRow (q : MarketSelection) (batchId : Option Uuid) (windowStart : Day) (b : MarketBatch) : Option BatchRow :=
  match b.state with
  | .published publishedAt =>
    if q.Asks batchId windowStart b ∧ s.InputsEligible q.retrievalCutoff b.id then
      let responses := (s.inputsOf b.id).filter (·.responds)
      (responses.filterMap s.inputTime).max?.map fun responseAt =>
        { batch := b
          publishedAt
          responseAt
          knownAt := ((s.inputsOf b.id).filterMap s.inputTime).max?
          responseIds := byKey id (responses.filterMap fun i => i.captureId.or i.attemptId) }
    else none
  | _ => none

/-- `_batches`. -/
def State.batches (q : MarketSelection) (batchId : Option Uuid) (windowStart : Option Day) : List BatchRow :=
  byKey BatchRow.order (s.store.batches.rows.filterMap (s.batchRow q batchId (windowStart.getD q.referenceDate)))

/-! ### The rows of a batch -/

/-- A row of one of the tables of observations. -/
inductive DailyRow where
  | price (p : PriceDaily)
  | observation (o : MacroObservation)

namespace DailyRow

/-- `id`. -/
def id : DailyRow → Uuid
  | price p => p.id
  | observation o => o.id

/-- `source_capture_id`. -/
def sourceCaptureId : DailyRow → Uuid
  | price p => p.sourceCaptureId
  | observation o => o.sourceCaptureId

/-- `source_locator`. -/
def sourceLocator : DailyRow → String
  | price p => p.sourceLocator
  | observation o => o.sourceLocator

/-- `source_date_text`. -/
def sourceDateText : DailyRow → String
  | price p => p.sourceDateText
  | observation o => o.sourceDateText

/-- `transform_revision`. -/
def transformRevision : DailyRow → String
  | price p => p.transformRevision
  | observation o => o.transformRevision

/-- The columns of the publication. -/
def publication : DailyRow → Publication
  | price p => p.publication
  | observation o => o.publication

/-- `row.get("source_realtime_start")`. -/
def realtimeStart : DailyRow → Option Day
  | price _ => none
  | observation o => o.sourceRealtime.map (·.1)

/-- The value of a field. -/
def measured (row : DailyRow) (field : FieldKey) : Option Measured :=
  match row, field with
  | price p, .price f => some (p.fields f)
  | price _, .value => none
  | observation o, _ => some o.value

end DailyRow

/-- The rows of a batch about a day. -/
def State.rowsOn (kind : DataKind) (batch : Uuid) (day : Day) : List DailyRow :=
  byKey DailyRow.id <| match kind with
    | .price => ((childrenOf s.store.prices.rows batch).filter fun c => c.item.sessionDate = day).map fun c => .price c.item
    | .macroSeries => ((childrenOf s.store.macros.rows batch).filter fun c => c.item.referenceDate = day).map fun c => .observation c.item

/-- `_publication_problem`. -/
def publicationProblem (row : DailyRow) (cutoff : Instant) (sourceAsOf : Option Day) : Option String :=
  let boundary := dayOf cutoff
  if ∃ day ∈ sourceAsOf, boundary ≤ day then some "ambiguous_source_vintage_at_instant"
  else if ∃ start ∈ row.realtimeStart, boundary ≤ start then some "ambiguous_source_vintage_at_instant"
  else match row.publication with
    | .instant _ at' => if at' ≤ cutoff then none else some "source_publication_after_cutoff"
    | .date day => if day < boundary then none else some "ambiguous_source_publication_date"
    | .unknown => some "unknown_source_publication_time"

/-- The definition of a series is of the future. -/
def FutureDefinition (q : MarketSelection) (d : SeriesDefinition) : Prop :=
  ∃ day ∈ d.definitionAsOfDate, (∃ asOf ∈ q.sourceAsOfDate, asOf < day) ∨ ∃ known ∈ q.sourceKnownAt, dayOf known ≤ day

instance (q : MarketSelection) (d : SeriesDefinition) : Decidable (FutureDefinition q d) := by
  unfold FutureDefinition
  infer_instance

/-- The observation is of another vintage than the one that is asked for. -/
def VintageMismatch (q : MarketSelection) (o : MacroObservation) : Prop :=
  ∃ asOf ∈ q.sourceAsOfDate, o.requestedSourceAsOf ≠ some asOf ∨ o.sourceVintageBasis ∉ [.sourceInterval, .requestedAsOf] ∨
    ∃ interval ∈ o.sourceRealtime, ¬ (interval.1 ≤ asOf ∧ asOf ≤ interval.2)

instance (q : MarketSelection) (o : MacroObservation) : Decidable (VintageMismatch q o) := by
  unfold VintageMismatch
  infer_instance

/-- `_macro_metadata`. -/
def State.macroMetadata (q : MarketSelection) (o : MacroObservation) : Except SelectionError (MarketSelection × Option String) :=
  match s.store.definitions.rows.find? fun d => d.id = o.seriesDefinitionId with
  | none => .error .assertion
  | some d =>
    if FutureDefinition q d then .ok (q, some "future_series_definition")
    else if VintageMismatch q o then .ok (q, some "source_vintage_mismatch")
    else .ok ({ q with
        seriesDefinitionId := some d.id
        unitCode := some d.unitCode
        unitsText := some d.unitsText
        unitMultiplier := some d.unitMultiplier
        frequency := some d.frequency
        seasonalAdjustment := some d.seasonalAdjustment
        definitionAsOfBasis := some d.definitionAsOfBasis
        definitionAsOfDate := d.definitionAsOfDate
        sourceVintageBasis := some o.sourceVintageBasis
        sourceRealtime := o.sourceRealtime
        referenceEndDate := o.referenceEndDate
        sourceObservationStatus := o.sourceObservationStatus }, none)

/-! ### The selection -/

/-- The flags of a batch that are about a query. -/
def State.qualityOf (q : MarketSelection) (batch : Uuid) : List MarketQualityFlag :=
  byKey (fun f => toLex (f.ruleKey, f.id)) <|
    ((childrenOf s.store.flags.rows batch).filter fun c =>
      decide (∀ day ∈ c.item.referenceDate, day = q.referenceDate) && decide (∀ field ∈ c.item.fieldKey, field = q.field)).map fun c =>
        { id := c.item.id, ruleKey := c.item.ruleKey, severity := c.item.severity, message := c.item.message
          referenceDate := c.item.referenceDate, fieldKey := c.item.fieldKey, captureId := c.item.captureId
          attemptId := c.item.attemptId, sourceLocator := c.item.sourceLocator }

/-- The captures under a batch. -/
def State.provenanceOf (batch : Uuid) : List CaptureProvenance :=
  byKey (fun p => toLex (p.role.text, p.captureId)) <|
    (s.inputsOf batch).filterMap fun i => (s.capture? i).map fun c =>
      { captureId := c.id, role := i.role, sourceId := c.sourceId, sourceObjectKey := c.sourceObjectKey, requestUrl := c.requestUrl
        bodySha256 := c.bodySha256, blobKey := c.blobKey, fetchedAt := c.fetchedAt, completedAt := c.completedAt }

/-- A query with the batch that was selected for it. -/
def MarketSelection.ofBatch (q : MarketSelection) (b : BatchRow) : MarketSelection :=
  { q with
    batchId := some b.batch.id
    candidateBatchIds := [b.batch.id]
    coverageState := some b.batch.content.coverageState
    responseAt := some b.responseAt
    evidenceKnownAt := b.knownAt
    provenance := s.provenanceOf b.batch.id
    attemptIds := byKey id ((s.inputsOf b.batch.id).filterMap (·.attemptId))
    qualityFlags := s.qualityOf q b.batch.id
    inputManifestHash := some b.batch.content.inputManifestHash
    outputManifestHash := some b.batch.content.outputManifestHash
    manifestBlobKey := some b.batch.content.manifestBlobKey
    parserRevision := some b.batch.content.parserRevision
    normalizerRevision := some b.batch.content.normalizerRevision
    selectionPolicyRevision := some b.batch.content.selectionPolicyRevision }

/-- A query with the columns that rows of both kinds have. -/
def MarketSelection.ofRow (q : MarketSelection) (row : DailyRow) (capturedAt : Instant) : MarketSelection :=
  let ageAt := q.retrievalCutoff.getD s.now
  { q with
    observationId := some row.id
    capturedAt := some capturedAt
    captureAge := some (ageAt - capturedAt)
    referenceAgeDays := some (dayOf ageAt - q.referenceDate)
    sourceLocator := some row.sourceLocator
    sourceDateText := some row.sourceDateText
    transformRevision := some row.transformRevision
    publication := some row.publication }

/-- A query with a value. -/
def MarketSelection.ofMeasured (q : MarketSelection) (m : Measured) : MarketSelection :=
  { q with value := m.value, valueState := some m.state, originalValueText := m.text }

/-- The currency of a field of a price. -/
def PriceDaily.currencyOf (p : PriceDaily) : PriceField → Option String
  | .divCash => p.dividendCurrency
  | .volume | .adjVolume | .splitFactor => none
  | _ => some p.quoteCurrency

/-- A query with a price. -/
def MarketSelection.ofPrice (q : MarketSelection) (p : PriceDaily) (field : PriceField) : MarketSelection :=
  { q.ofMeasured (p.fields field) with
    currency := p.currencyOf field
    securityId := some p.securityId
    quoteBindingId := some p.quoteBindingId
    adjustmentBasis := some p.adjustmentBasis
    adjustmentVintageBasis := some p.adjustmentVintageBasis
    adjustmentVintageDate := p.adjustmentVintageDate
    sessionBasis := some "provider_daily_label"
    sessionTimezone := p.sessionTimezone }

/-- The flag raises an error or blocks. -/
def MarketQualityFlag.blocks (f : MarketQualityFlag) : Bool := f.severity = .error || f.severity = .blocking

/-- A selection with what its flags say. -/
def MarketSelection.finish (q : MarketSelection) (flags : List String) : MarketSelection :=
  let flags := flags ++ q.qualityFlags.map (·.ruleKey)
  let blocking := decide ("definition_history_unavailable" ∈ flags) || q.qualityFlags.any (·.blocks)
  let stated := if q.valueState = some .observed then [] else [(q.valueState.map (·.text)).getD "unavailable"]
  let covered := decide (q.coverageState = some .complete)
  { q with
    flags := sortedSet (flags ++ stated ++ if covered then [] else ["incomplete_coverage"])
    usable := decide (q.valueState = some .observed) && !(blocking || !covered) }

/-- A selection that says what keeps it from a value. -/
def MarketSelection.refuse (q : MarketSelection) (flags : List String) (problem : String) : MarketSelection :=
  { q with flags := sortedSet (flags ++ [problem]) }

/-- The selection of a row. -/
def State.selectRow (q : MarketSelection) (row : DailyRow) (flags : List String) : Except SelectionError MarketSelection :=
  match q.provenance.find? fun p => p.captureId = row.sourceCaptureId with
  | none => .error .stopIteration
  | some capture =>
    match capture.completedAt with
    | none => .error .type
    | some capturedAt =>
      let q := q.ofRow s row capturedAt
      match q.sourceKnownAt.bind fun known => publicationProblem row known q.sourceAsOfDate with
      | some problem => .ok (q.refuse flags problem)
      | none =>
        match row, q.field with
        | .observation o, _ => do
          match ← s.macroMetadata q o with
          | (q, some problem) => return q.refuse flags problem
          | (q, none) =>
            let history := if q.sourceAsOfDate ≠ none ∧ q.definitionAsOfBasis ≠ some "source_supplied"
              then ["definition_history_unavailable"] else []
            return (q.ofMeasured o.value).finish (flags ++ history)
        | .price p, .price field => .ok ((q.ofPrice p field).finish flags)
        | .price _, .value => .error .type

/-- `_select`. -/
def State.select (q : MarketSelection) (batchId : Option Uuid) (batches : Option (List BatchRow)) :
    Except SelectionError MarketSelection :=
  match batches.getD (s.batches q batchId none) with
  | [] => .ok { q with flags := ["no_eligible_batch"] }
  | batch :: rest =>
    let tied := (batch :: rest).filter fun b => b.responseAt = batch.responseAt
    if 1 < (tied.map (·.responseIds)).dedup.length then
      .ok { q with candidateBatchIds := tied.map (·.batch.id), flags := ["ambiguous_batch"] }
    else
      let flags := if batchId = none then [] else ["explicit_batch"]
      let q := q.ofBatch s batch
      let rows := s.rowsOn q.dataKind batch.batch.id q.referenceDate
      let q := { q with observationIds := rows.map (·.id) }
      match rows with
      | [row] => s.selectRow q row flags
      | [] => .ok (q.refuse flags "missing_observation")
      | _ => .ok (q.refuse flags "ambiguous_observation")

/-- The dates in a window that the rows of some batches have. -/
def State.datesIn (batches : List BatchRow) (first last : Day) : List Day :=
  (s.store.macros.rows.filter fun c =>
    decide (c.batchId ∈ batches.map (·.batch.id)) && decide (first ≤ c.item.referenceDate ∧ c.item.referenceDate ≤ last)).map
      (·.item.referenceDate)

/-- The selection of the latest date in a window, from the responses that reach it. -/
def State.selectLatest (q : MarketSelection) (batchId : Option Uuid) (batches : List BatchRow) (first last : Day) :
    Except SelectionError MarketSelection :=
  match (s.datesIn batches first last).max? with
  | some day => s.select { q with referenceDate := day } batchId (some (batches.filter fun b => day ≤ b.batch.content.requestedEnd))
  | none => s.select q batchId (some batches)

/-- A selection with its age at the date that it was made for. -/
def MarketSelection.agedAt (result : MarketSelection) (selectionDate : Day) : MarketSelection :=
  if result.observationId = none then result
  else
    { result with
      referenceAgeDays := some (selectionDate - result.referenceDate)
      flags := sortedSet (result.flags ++ if result.referenceDate = selectionDate then [] else ["backward_selected"]) }

/-- `_backward`. -/
def State.backward (q : MarketSelection) (batchId : Option Uuid) (selectionDate : Day) (maxAgeDays : ℤ) :
    Except SelectionError MarketSelection :=
  let first := selectionDate - maxAgeDays
  let batches := s.batches q batchId (some first)
  if batches = [] then .ok { q with flags := ["no_eligible_batch"] }
  else do
    let result ← s.selectLatest q batchId batches first selectionDate
    return result.agedAt selectionDate

/-- `_read`. -/
def State.read (q : MarketSelection) (batchId : Option Uuid) : Except SelectionError MarketSelection :=
  match q.maxAgeDays with
  | none => s.select q batchId none
  | some maxAgeDays =>
    match q.selectionDate with
    | none => .error .assertion
    | some selectionDate => s.backward q batchId selectionDate maxAgeDays

/-! ### The questions -/

/-- A key of a series has text and no space around it. -/
def ExactKey (key : String) : Prop :=
  hasText key ∧ (∀ c ∈ key.toList.head?, isSpace c = false) ∧ ∀ c ∈ key.toList.getLast?, isSpace c = false

instance (key : String) : Decidable (ExactKey key) :=
  haveI (c? : Option Char) : Decidable (∀ c ∈ c?, isSpace c = false) := Option.decidableForallMem c?
  inferInstanceAs (Decidable (_ ∧ _ ∧ _))

/-- `select_price`. -/
def State.selectPrice (sourceId quoteIdentifierId : Uuid) (sessionDate : Day) (field : PriceField) (retrievalCutoff : Option Instant)
    (batchId : Option Uuid) (sourceKnownAt : Option Instant) : Except SelectionError MarketSelection :=
  s.read
    { dataKind := .price, sourceId := sourceId, referenceDate := sessionDate, field := .price field
      quoteIdentifierId := some quoteIdentifierId, retrievalCutoff := retrievalCutoff, sourceKnownAt := sourceKnownAt } batchId

/-- `select_macro`. -/
def State.selectMacro (sourceId : Uuid) (seriesKey : String) (referenceDate : Day) (sourceAsOfDate : Option Day)
    (retrievalCutoff : Option Instant) (batchId : Option Uuid) (sourceKnownAt : Option Instant) :
    Except SelectionError MarketSelection :=
  if ¬ ExactKey seriesKey then .error (.value "An exact nonempty series key is required")
  else s.read
    { dataKind := .macroSeries, sourceId := sourceId, referenceDate := referenceDate, field := .value, seriesKey := some seriesKey
      retrievalCutoff := retrievalCutoff, sourceAsOfDate := sourceAsOfDate, sourceKnownAt := sourceKnownAt } batchId

/-- The query of a backward selection. -/
def backwardQuery (sourceId : Uuid) (seriesKey : String) (selectionDate : Day) (maxAgeDays : ℤ) (sourceAsOfDate : Option Day)
    (retrievalCutoff sourceKnownAt : Option Instant) : MarketSelection where
  dataKind := .macroSeries
  sourceId := sourceId
  referenceDate := selectionDate
  field := .value
  seriesKey := some seriesKey
  selectionDate := some selectionDate
  maxAgeDays := some maxAgeDays
  sourceAsOfDate := sourceAsOfDate
  retrievalCutoff := retrievalCutoff
  sourceKnownAt := sourceKnownAt

/-- `select_macro_at_or_before`. -/
def State.selectMacroAtOrBefore (sourceId : Uuid) (seriesKey : String) (selectionDate : Day) (maxAgeDays : ℤ)
    (sourceAsOfDate : Option Day) (retrievalCutoff : Option Instant) (batchId : Option Uuid) (sourceKnownAt : Option Instant) :
    Except SelectionError MarketSelection :=
  if maxAgeDays < 0 then .error (.value "Maximum reference age must be a nonnegative integer")
  else if selectionDate + 719163 ≤ maxAgeDays then .error (.value "Selection date and maximum age must define a valid date window")
  else if ¬ ExactKey seriesKey then .error (.value "An exact nonempty series key is required")
  else s.read (backwardQuery sourceId seriesKey selectionDate maxAgeDays sourceAsOfDate retrievalCutoff sourceKnownAt) batchId

end

end EquityEval.Market
