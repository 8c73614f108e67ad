import EquityEval.Market.Tables
import EquityEval.Relational.Exact

/-!
# Publication of a batch

`market_publish` inserts a batch with its children and publishes it, or finds the batch of the same
input published already. A batch that is found has its bundle checked again by the same loops, with the
insertions left out.
-/

namespace EquityEval.Market

open Relational Workflow Ingestion

/-- What a caller publishes. -/
structure MarketBundle where
  batchId : Uuid
  batch : BatchContent
  inputs : List BatchInput
  flags : List QualityFlag
  prices : List PriceDaily
  macros : List MacroObservation
  definitions : List SeriesDefinition := []
  bindings : List QuoteBinding := []

/-- The interval and the currency of a quote. -/
structure QuoteIdentifier where
  validFrom : Day
  validTo : Option Day
  quoteCurrency : String
deriving DecidableEq, Repr

/-- What the tables of securities say: the quotes with their closures, and whether what a row refers to is there. -/
structure References where
  quote? : Uuid → Option QuoteIdentifier
  closures : Uuid → List (Day × Option Instant)
  refersBinding : QuoteBinding → Bool
  refersDefinition : SeriesDefinition → Bool
  refersBatch : BatchContent → Bool

/-- The table of captures with their links to policies. -/
abbrev Captures : Type := Table SourceCapture CapturesValid

/-- The tables that a publication reads, at one reading of the clock. -/
structure World extends References where
  resources : Resources
  now : Instant
  db : Database
  capabilities : Capabilities
  captures : Captures
  attempts : Attempts

/-- A published batch, and whether it had been published before. -/
structure PublishResult where
  batchId : Uuid
  reused : Bool
deriving DecidableEq, Repr

/-- The error of a check of a publication. -/
def refused (message : String) : SqlError := ⟨.checkViolation, message⟩

/-- The error of a record that differs from the one with its identity. -/
def recordConflict : SqlError := refused "immutable market record conflicts with existing identity"

section Checks

variable (w : World)

/-- `ingestion_locked_stage`. -/
def lockedStage (lease : Lease) (stage : Uuid) : Except SqlError (Execution × StageAttempt) := do
  let execution ← workflowLockedLease w.db w.now lease
  let found ← orRaise ((w.db.stage? stage).filter fun s => decide (s.executionId = execution.id ∧ s.Running)) stageLost
  return (execution, found)

/-- `market_require_capture`. -/
def marketRequireCapture (id : Uuid) (cutoff : Option Instant) (numeric : Bool) : Except SqlError (SourceCapture × Uuid) := do
  let missing := refused "market capture is incomplete, unreviewed, unsuccessful or after cutoff"
  let c ← orRaise (w.captures.lookup SourceCapture.id id) missing
  let policy ← orRaise c.policyRevisionId missing
  let completed ← orRaise c.completedAt missing
  raiseIf (c.bodySha256 = none ∨ (∃ limit ∈ cutoff, limit < completed) ∨ (numeric = true ∧ ¬ ∃ status ∈ c.httpStatus, Success status)) missing
  if w.resources.secResource c.sourceId policy c.requestUrl c.sourceObjectKey = false then
    marketValidatePolicy w.resources w.capabilities w.now policy c.sourceId c.sourceObjectKey none false false
  return (c, policy)

/-- `stage_key ~ '^macro_normalization_[a-f0-9]{16}$'`. -/
def macroStage (key : String) : Bool :=
  let digits := key.toList.drop "macro_normalization_".length
  key.toList.take "macro_normalization_".length = "macro_normalization_".toList ∧ digits.length = 16 ∧
    digits.all fun c => c.isDigit || ('a' ≤ c && c ≤ 'f')

/-- The batch is what the request of its execution asked for. -/
def checkScope (request : AnalysisRequest) (stageKey : String) (bundle : MarketBundle) : Except SqlError Unit := do
  let batch := bundle.batch
  let plan ← orRaise request.options.marketPlan (refused "request has no immutable market plan")
  raiseIf (batch.retrievalCutoff ≠ request.options.retrievalVintage) (refused "market retrieval cutoff differs from request")
  match batch.dataKind with
  | .price =>
    raiseIf (stageKey ≠ "price_normalization" ∨ plan.priceSourceId ≠ some batch.sourceId ∨
        batch.securityId ≠ some request.securityId ∨ batch.quoteIdentifierId ≠ request.quoteIdentifierId ∨
        plan.priceStart ≠ some batch.requestedStart ∨ plan.priceEnd ≠ some batch.requestedEnd ∨ batch.sourceAsOfDate ≠ none ∨
        batch.sourceVintageMode ≠ .currentProviderHistory ∨ bundle.macros ≠ [])
      (refused "price batch does not match immutable request scope")
  | .macroSeries =>
    raiseIf (macroStage stageKey = false ∨ plan.macroSourceId ≠ some batch.sourceId ∨
        ¬ (∃ series ∈ batch.sourceSeriesKey, ∃ keys ∈ plan.macroSeriesKeys, series ∈ keys) ∨
        (∃ start ∈ plan.macroStart, batch.requestedStart < start) ∨ (∃ last ∈ plan.macroEnd, last < batch.requestedEnd) ∨
        batch.sourceAsOfDate ≠ plan.macroSourceAsOfDate ∨ bundle.prices ≠ [])
      (refused "macro batch does not match immutable request scope")
  raiseIf (batch.parserRevision ≠ "parser-v1" ∨ batch.normalizerRevision ≠ "normalizer-v1" ∨
    batch.selectionPolicyRevision ≠ "selection-v1") (refused "market parser or selection revision differs from pinned plan")

/-- The last day of a quote that a batch may ask for, exclusive. -/
def quoteCut (batch : BatchContent) (quoteIdentifier : Uuid) : Option Day :=
  let closed := (w.closures quoteIdentifier).filter fun closure => decide
    (∀ cutoff ∈ batch.retrievalCutoff, ∃ completed ∈ closure.2, completed ≤ cutoff)
  (closed.map (·.1) ++ ((w.quote? quoteIdentifier).bind (·.validTo)).toList).min?

/-- The binding of a batch of prices covers its interval, and its capture is pinned. -/
def checkBinding (store : MarketStore) (bundle : MarketBundle) : Except SqlError (Option QuoteBinding) := do
  let batch := bundle.batch
  match batch.dataKind, batch.quoteBindingId with
  | .price, some id => do
    let uncovered := refused "price binding or quote validity does not cover requested interval"
    let binding ← orRaise (store.bindings.lookup QuoteBinding.id id) uncovered
    raiseIf (binding.sourceId ≠ batch.sourceId ∨ (∃ quote ∈ batch.quoteIdentifierId, binding.quoteIdentifierId ≠ quote) ∨
        (∃ security ∈ batch.securityId, binding.securityId ≠ security) ∨ batch.requestedStart < binding.validFrom ∨
        (∃ day ∈ binding.validTo, day ≤ batch.requestedEnd) ∨
        ∃ quote ∈ batch.quoteIdentifierId, (∃ q ∈ w.quote? quote, batch.requestedStart < q.validFrom) ∨
          ∃ cut ∈ quoteCut w batch quote, cut ≤ batch.requestedEnd) uncovered
    let _ ← marketRequireCapture w binding.identityCaptureId batch.retrievalCutoff true
    raiseIf (¬ ∃ i ∈ bundle.inputs, i.captureId = some binding.identityCaptureId ∧ i.role = .quoteIdentity)
      (refused "price identity capture is not pinned")
    return some binding
  | _, _ => return none

/-- The definition of a batch of observations is that of its series, and its capture is pinned. -/
def checkDefinition (store : MarketStore) (bundle : MarketBundle) : Except SqlError (Option SeriesDefinition) := do
  let batch := bundle.batch
  match batch.dataKind, batch.seriesDefinitionId with
  | .macroSeries, some id => do
    let mismatch := refused "macro definition does not match requested source series"
    let definition ← orRaise (store.definitions.lookup SeriesDefinition.id id) mismatch
    raiseIf (definition.sourceId ≠ batch.sourceId ∨ ∃ series ∈ batch.sourceSeriesKey, definition.sourceSeriesKey ≠ series) mismatch
    let _ ← marketRequireCapture w definition.metadataCaptureId batch.retrievalCutoff true
    raiseIf (¬ ∃ i ∈ bundle.inputs, i.captureId = some definition.metadataCaptureId ∧ i.role = .seriesDefinition)
      (refused "macro definition capture is not pinned")
    return some definition
  | _, _ => return none

/-- The request that an attempt was made for. -/
def requestOf (a : FetchAttempt) : Option AnalysisRequest := do
  let stage ← w.db.stage? a.stageAttemptId
  let execution ← w.db.execution? stage.executionId
  w.db.request? execution.requestId

/-- An attempt that has ended for a request like that of the batch. -/
def AttemptFits (batch : BatchContent) (binding : Option QuoteBinding) (a : FetchAttempt) : Prop :=
  a.sourceId = batch.sourceId ∧ a.policyRevisionId = batch.policyRevisionId ∧ ¬ a.Unfinished ∧
    (∃ finished ∈ a.finishedAt, ∀ cutoff ∈ batch.retrievalCutoff, finished ≤ cutoff) ∧
    ∃ request ∈ requestOf w a, ∃ plan ∈ request.options.marketPlan,
      (batch.dataKind = .price ∧ plan.priceSourceId = some batch.sourceId ∧ request.quoteIdentifierId = batch.quoteIdentifierId ∧
        some request.securityId = batch.securityId ∧ plan.priceStart = some batch.requestedStart ∧
        plan.priceEnd = some batch.requestedEnd ∧ ∃ b ∈ binding, a.sourceObjectKey = "tiingo_eod/" ++ b.providerSymbol) ∨
      (batch.dataKind = .macroSeries ∧ plan.macroSourceId = some batch.sourceId ∧
        (∃ start ∈ plan.macroStart, start ≤ batch.requestedStart) ∧ (∃ last ∈ plan.macroEnd, batch.requestedEnd ≤ last) ∧
        plan.macroSourceAsOfDate = batch.sourceAsOfDate ∧ ∃ series ∈ batch.sourceSeriesKey,
          (∃ keys ∈ plan.macroSeriesKeys, series ∈ keys) ∧
            a.sourceObjectKey ∈ ["daily_treasury_yield_curve", "fred_observations/" ++ series])

set_option synthInstance.maxSize 400 in
instance (batch : BatchContent) (binding : Option QuoteBinding) (a : FetchAttempt) : Decidable (AttemptFits w batch binding a) := by
  unfold AttemptFits
  infer_instance

/-- An input is a capture or an attempt that the batch may rest on. -/
def checkInput (batch : BatchContent) (binding : Option QuoteBinding) (i : BatchInput) : Except SqlError Unit :=
  match i.captureId, i.attemptId with
  | some id, _ => do
    let (c, policy) ← marketRequireCapture w id batch.retrievalCutoff (decide (i.role ≠ .fetchOutcome))
    if i.role = .observations then do
      raiseIf (c.sourceId ≠ batch.sourceId ∨ policy ≠ batch.policyRevisionId) (refused "observation capture source or policy mismatch")
      marketValidatePolicy w.resources w.capabilities w.now batch.policyRevisionId batch.sourceId c.sourceObjectKey batch.sourceSeriesKey
        true false
  | none, some attempt =>
    raiseIf (¬ ∃ a ∈ w.attempts.lookup FetchAttempt.id attempt, AttemptFits w batch binding a)
      (refused "attempt is unresolved or outside market request, policy or cutoff")
  | none, none => return ()

/-! ### Children -/

/-- A row of a numeric kind names a pinned capture of observations. -/
def checkNumericCapture (bundle : MarketBundle) (capture : Uuid) : Except SqlError Unit :=
  raiseIf (¬ ∃ i ∈ bundle.inputs, i.captureId = some capture ∧ i.role = .observations)
    (refused "numeric row capture is not a pinned observation input")

/-- The day of a row is in the interval of the batch. -/
def checkDay (batch : BatchContent) (day : Option Day) : Except SqlError Unit :=
  raiseIf (∃ d ∈ day, d < batch.requestedStart ∨ batch.requestedEnd < d) (refused "market row is outside requested interval")

/-- A flag of an error that is about a field of a day. -/
def QualityFlag.Explains (f : QualityFlag) (day : Day) (field : FieldKey) : Prop :=
  f.referenceDate = some day ∧ (f.fieldKey = some field ∨ f.fieldKey = none) ∧ f.severity ∈ [.error, .blocking]

instance (f : QualityFlag) (day : Day) (field : FieldKey) : Decidable (f.Explains day field) :=
  inferInstanceAs (Decidable (_ ∧ _))

/-- A value that cannot be used is explained by a flag. -/
def checkExplained (bundle : MarketBundle) (day : Day) (field : FieldKey) (problem : Prop) [Decidable problem] : Except SqlError Unit :=
  raiseIf (problem ∧ ¬ ∃ f ∈ bundle.flags, f.Explains day field) (refused "unusable market value lacks explicit field quality flag")

/-- The checks of a price before it is stored. -/
def checkPrice (bundle : MarketBundle) (binding : Option QuoteBinding) (p : PriceDaily) : Except SqlError Unit := do
  let batch := bundle.batch
  checkDay batch (some p.sessionDate)
  checkNumericCapture bundle p.sourceCaptureId
  raiseIf (some p.quoteBindingId ≠ binding.map (·.id) ∨ some p.quoteIdentifierId ≠ batch.quoteIdentifierId ∨
      some p.securityId ≠ batch.securityId ∨
      some p.quoteCurrency ≠ (batch.quoteIdentifierId.bind w.quote?).map (·.quoteCurrency))
    (refused "price row identity or currency mismatch")
  PriceField.fields.forM fun field => checkExplained bundle p.sessionDate (.price field)
    ((p.fields field).state ≠ .observed ∨ (field = .divCash ∧ (p.fields field).value ≠ none ∧ p.dividendCurrency = none))

/-- The checks of an observation before it is stored. -/
def checkObservation (bundle : MarketBundle) (definition : Option SeriesDefinition) (o : MacroObservation) : Except SqlError Unit := do
  let batch := bundle.batch
  checkDay batch (some o.referenceDate)
  checkNumericCapture bundle o.sourceCaptureId
  raiseIf (some o.seriesDefinitionId ≠ definition.map (·.id) ∨ o.requestedSourceAsOf ≠ batch.sourceAsOfDate ∨
      ∃ asOf ∈ batch.sourceAsOfDate, o.sourceVintageBasis ∉ [.sourceInterval, .requestedAsOf] ∨
        ∃ interval ∈ o.sourceRealtime, asOf < interval.1 ∨ interval.2 < asOf)
    (refused "macro row definition or source vintage mismatch")
  checkExplained bundle o.referenceDate .value (o.value.state ≠ .observed)

/-- The checks of a flag before it is stored. -/
def checkFlag (bundle : MarketBundle) (f : QualityFlag) : Except SqlError Unit := do
  checkDay bundle.batch f.referenceDate
  raiseIf ((∃ field ∈ f.fieldKey, ¬ (bundle.batch.dataKind = .macroSeries ↔ field = .value)) ∨
      (∃ capture ∈ f.captureId, ¬ ∃ i ∈ bundle.inputs, i.captureId = some capture) ∨
      ∃ attempt ∈ f.attemptId, ¬ ∃ i ∈ bundle.inputs, i.attemptId = some attempt)
    (refused "market quality flag has wrong field or unpinned evidence")

end Checks

/-- `market_insert_exact` of a child: its batch is being built, and it keeps the checks of its table. -/
def insertChild {ι κ : Type} [DecidableEq ι] [DecidableEq κ] {constraint : List (Child ι) → Prop} [DecidablePred constraint]
    (key : Child ι → κ) (checked : ι → Prop) [DecidablePred checked] (name : String) (batch : Uuid) (building insert : Bool)
    (table : Table (Child ι) constraint) (item : ι) : Except SqlError (Table (Child ι) constraint) := do
  raiseIf (insert = true ∧ building = false) ⟨.objectNotInPrerequisiteState, "market child requires building batch"⟩
  raiseIf (insert = true ∧ ¬ checked item) (violates name)
  table.insertExact key ⟨batch, item⟩ insert recordConflict

/-- The rows of a batch. -/
def childrenOf {ι : Type} (rows : List (Child ι)) (batch : Uuid) : List (Child ι) := rows.filter fun c => decide (c.batchId = batch)

/-- Store the children of one kind, and count them. -/
def storeChildren {ι κ : Type} [DecidableEq ι] [DecidableEq κ] {constraint : List (Child ι) → Prop} [DecidablePred constraint]
    (key : Child ι → κ) (checked : ι → Prop) [DecidablePred checked] (name : String) (check : ι → Except SqlError Unit) (batch : Uuid)
    (building insert : Bool) (table : Table (Child ι) constraint) (items : List ι) :
    Except SqlError (Table (Child ι) constraint) := do
  let table ← items.foldlM (fun table item => do
    check item
    insertChild key checked name batch building insert table item) table
  raiseIf ((childrenOf table.rows batch).length ≠ items.length) (refused "market bundle repeats or omits child records")
  return table

/-- Store the children of all kinds. -/
def storeBundle (w : World) (store : MarketStore) (bundle : MarketBundle) (binding : Option QuoteBinding)
    (definition : Option SeriesDefinition) (batch : Uuid) (insert : Bool) : Except SqlError MarketStore := do
  let building := (store.batches.lookup MarketBatch.id batch).any fun b => decide (b.state = .building)
  let inputs ← storeChildren (fun c => c.item.id) BatchInput.Checked "market_data_batch_inputs" (fun _ => return ()) batch building insert
    store.inputs bundle.inputs
  let flags ← storeChildren (fun c => c.item.id) QualityFlag.Checked "market_data_quality_flags" (checkFlag bundle) batch building insert
    store.flags bundle.flags
  let prices ← storeChildren (fun c => (c.item.sessionDate, c.item.id)) PriceDaily.Checked "price_daily" (checkPrice w bundle binding)
    batch building insert store.prices bundle.prices
  let macros ← storeChildren (fun c => (c.item.referenceDate, c.item.id)) MacroObservation.Checked "macro_observations"
    (checkObservation bundle definition) batch building insert store.macros bundle.macros
  return { store with inputs, flags, prices, macros }

/-! ### The publication -/

/-- The published batch of a source and an input. -/
def publishedBatch (store : MarketStore) (batch : BatchContent) : Option MarketBatch :=
  store.batches.rows.find? fun b => decide (b.input = (batch.sourceId, batch.inputManifestHash) ∧ b.Published)

/-- Store the bindings and the definitions of a bundle. -/
def storeIdentities (w : World) (store : MarketStore) (bundle : MarketBundle) : Except SqlError MarketStore := do
  let bindings ← bundle.bindings.foldlM (fun table b => do
    raiseIf (¬ b.Checked) (violates "provider_quote_bindings")
    raiseIf (w.refersBinding b = false) ⟨.foreignKeyViolation, "provider_quote_bindings"⟩
    table.insertExact QuoteBinding.id b true recordConflict) store.bindings
  let definitions ← bundle.definitions.foldlM (fun table d => do
    raiseIf (¬ d.Checked) (violates "macro_series_definitions")
    raiseIf (w.refersDefinition d = false) ⟨.foreignKeyViolation, "macro_series_definitions"⟩
    table.insertExact SeriesDefinition.id d true recordConflict) store.definitions
  return { store with bindings, definitions }

/-- Insert a batch that is being built. -/
def insertBatch (w : World) (store : MarketStore) (bundle : MarketBundle) (stage : Uuid) : Except SqlError MarketStore := do
  raiseIf (¬ bundle.batch.Checked) (violates "market_data_batches")
  raiseIf (w.refersBatch bundle.batch = false) ⟨.foreignKeyViolation, "market_data_batches"⟩
  let batches ← store.batches.insertExact MarketBatch.id ⟨bundle.batchId, bundle.batch, stage, w.now, .building⟩ true recordConflict
  return { store with batches }

/-- Publish a batch that is being built. -/
def publishBatch (w : World) (store : MarketStore) (batch : Uuid) : Except SqlError MarketStore := do
  raiseIf (¬ ∀ b ∈ store.batches.lookup MarketBatch.id batch, b.state = .building)
    ⟨.objectNotInPrerequisiteState, "market batch publication is immutable"⟩
  let batches ← store.batches.update (fun b => b.id = batch) (fun b => { b with state := .published w.now }) (violates "market_data_batches")
  return { store with batches }

/-- Insert the batch of a bundle, unless its input has a batch. -/
def openBatch (w : World) (store : MarketStore) (bundle : MarketBundle) (stage : Uuid) : Option MarketBatch → Except SqlError MarketStore
  | none => insertBatch w store bundle stage
  | some _ => return store

/-- Publish the batch of a bundle, unless its input had a batch. -/
def closeBatch (w : World) (store : MarketStore) (bundle : MarketBundle) : Option MarketBatch → Except SqlError MarketStore
  | none => publishBatch w store bundle.batchId
  | some _ => return store

/-- The identifier of the batch that holds the children of a bundle. -/
def batchIdOf (bundle : MarketBundle) (existing : Option MarketBatch) : Uuid := (existing.map (·.id)).getD bundle.batchId

/-- The captures of a bundle that were successful. -/
def successfulCaptures (w : World) (bundle : MarketBundle) : List Uuid :=
  (bundle.inputs.filterMap (·.captureId)).dedup.filter fun id =>
    (w.captures.lookup SourceCapture.id id).any fun c => decide (∃ status ∈ c.httpStatus, Success status)

/-- A capture that a stage may reuse: it is there, complete and successful. -/
def reusableCapture (w : World) (id : Uuid) : Bool :=
  (w.captures.lookup SourceCapture.id id).any fun c => decide ((∃ status ∈ c.httpStatus, Success status) ∧ c.completedAt ≠ none ∧
    c.bodySha256 ≠ none ∧ c.blobKey ≠ none ∧ c.byteCount ≠ none ∧ c.fetchedAt ≠ none)

/-- The result of a publication as the stage records it; its text is a parameter. -/
abbrev ResultText : Type := Uuid → BatchContent → String

/-- `market_publish`. -/
def marketPublish (resultText : ResultText) (w : World) (store : MarketStore) (lease : Lease) (stage : Uuid) (bundle : MarketBundle) :
    Except SqlError (Database × MarketStore × PublishResult) := do
  let (execution, attempt) ← lockedStage w lease stage
  let request ← orRaise (w.db.request? execution.requestId) (refused "request has no immutable market plan")
  let batch := bundle.batch
  checkScope request attempt.stageKey bundle
  let _ ← lockedStage w lease stage
  let existing := publishedBatch store batch
  raiseIf (∃ b ∈ existing, b.content ≠ batch) (refused "same market input has conflicting output or manifest")
  let store ← storeIdentities w store bundle
  let binding ← checkBinding w store bundle
  let definition ← checkDefinition w store bundle
  raiseIf ((bundle.prices ≠ [] ∧ binding = none) ∨ (bundle.macros ≠ [] ∧ definition = none))
    (refused "market observations require reviewed identity or definition")
  raiseIf (¬ ∃ c ∈ capability? w.capabilities batch.policyRevisionId, c.sourceId = batch.sourceId ∧ c.Retains)
    (refused "market batch policy source mismatch")
  bundle.inputs.forM (checkInput w batch binding)
  raiseIf (batch.dataKind = .price ∧
      1 < ((bundle.inputs.filter fun i => i.role = .observations).filterMap (·.captureId)).dedup.length)
    (refused "price history requires one coherent response")
  let store ← openBatch w store bundle stage existing
  let id := batchIdOf bundle existing
  let store ← storeBundle w store bundle binding definition id existing.isNone
  raiseIf ((batch.coverageState ≠ .complete ∨ (bundle.prices = [] ∧ bundle.macros = [])) ∧ bundle.flags = [])
    (refused "incomplete or empty market batch needs explicit quality flag")
  let _ ← lockedStage w lease stage
  let store ← closeBatch w store bundle existing
  let (db, _) ← workflowFinishStage w.db w.now lease stage (some .completed) (some (resultText id batch)) (successfulCaptures w bundle)
    (reusableCapture w)
  return (db, store, ⟨id, existing.isSome⟩)

end EquityEval.Market
