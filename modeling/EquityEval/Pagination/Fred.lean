import EquityEval.Fundamentals.Companies
import EquityEval.Normalization.Inputs
import EquityEval.Relational.Table
import EquityEval.Sorting.Keys

/-!
# Pages of a series

A series of observations is requested in pages, each of which names its place. The pages are read in
the order of their places; what has been seen of the observations is carried from page to page, so
that the dates are in order and no two intervals of one date overlap. How bytes are read and hashed
and which identifier a name has are parameters.
-/

namespace EquityEval.Pagination

open Workflow DecimalArithmetic Gregorian PointInTime
open Fundamentals (isDigest)
open Normalization (EvidenceCapture RawScalar digitsNumber uniqueKeys)
open Relational (orRaise)
open Text (Tree)
open Vintage (hasText)

/-! ### Refusals -/

/-- Why a series is refused; what the standard library raises has no text here. -/
inductive Refusal where
  | valueError (message : String)
  | unreadable
deriving DecidableEq

/-- Nothing is read on. -/
def refuse {α : Type} (message : String) : Except Refusal α := .error (.valueError message)

/-- A condition without which nothing is read on. -/
def require (condition : Prop) [Decidable condition] (message : String) : Except Refusal Unit :=
  if condition then .ok () else refuse message

@[simp] theorem require_eq_ok {condition : Prop} [Decidable condition] {message : String} {u : Unit} :
    require condition message = .ok u ↔ condition := by
  unfold require refuse
  split <;> simp_all

/-! ### Inputs -/

/-- The definition of a series. -/
structure MacroSeriesDefinition where
  id : Uuid
  sourceId : Uuid
  sourceSeriesKey : String
  metadataCaptureId : Uuid
  sourceLocator : String
  contentSha256 : String
  definitionRevision : String
  title : String
  unitsText : String
  unitCode : String
  unitMultiplier : Number
  frequency : String
  seasonalAdjustment : String
  geography : String
  referenceDateConvention : String
  upstreamSourceName : String
  upstreamRightsReference : String
  sourceReleaseKey : Option String
  definitionAsOfDate : Option Date
  definitionAsOfBasis : String

/-- What is normalized; of a quote it matters here only whether there is one. -/
structure MarketNormalizationInput where
  sourceId : Uuid
  policyRevisionId : Uuid
  requestedStart : Date
  requestedEnd : Date
  captures : List EvidenceCapture
  parserRevision : String
  normalizerRevision : String
  selectionPolicyRevision : String
  seriesDefinition : Option MacroSeriesDefinition
  hasQuoteBinding : Bool
  hasQuoteContext : Bool
  retrievalCutoff : Option Instant
  sourceAsOfDate : Option Date
  treasuryMonth : Option String
  allowLegacyTreasuryNull : Bool
  attemptIds : List Uuid

/-- A page with what was requested. -/
structure FredPage where
  captureId : Uuid
  body : List UInt8
  seriesId : String
  observationStart : Date
  observationEnd : Date
  realtimeStart : Date
  realtimeEnd : Date
  offset : ℤ
  limit : ℤ
  units : String := "lin"
  outputType : ℤ := 1
  orderBy : String := "observation_date"
  sortOrder : String := "asc"
  frequency : Option String := none
  aggregationMethod : Option String := none

/-! ### Results -/

/-- How severe a flag is. -/
inductive Severity where
  | info
  | blocking
deriving DecidableEq

/-- What is wrong with a row or with a response. -/
structure MarketQualityFlag where
  id : Uuid
  referenceDate : Option Date
  fieldKey : Option String
  ruleKey : String
  severity : Severity
  message : String
  captureId : Option Uuid
  sourceLocator : Option String

/-- Whether there is a value. -/
inductive MacroState where
  | observed
  | sourceMissing
  | unparseable
deriving DecidableEq

/-- What is known of the vintage of a row. -/
inductive VintageBasis where
  | sourceInterval
  | requestedAsOf
  | currentOnly
deriving DecidableEq

/-- A row of a series. -/
structure MacroObservation where
  id : Uuid
  referenceDate : Date
  seriesDefinitionId : Uuid
  sourceCaptureId : Uuid
  sourceLocator : String
  sourceDateText : String
  value : Option Decimal
  valueState : MacroState
  originalValueText : Option String
  transformRevision : String
  sourceRealtimeStart : Date
  sourceRealtimeEnd : Date
  sourceVintageBasis : VintageBasis
  requestedSourceAsOf : Option Date

/-- How much there is of a series. -/
inductive CoverageState where
  | unknown
  | unavailable
  | partly
deriving DecidableEq

/-- The rows of a series with what is wrong with them. -/
structure MarketNormalizationBundle where
  inputs : MarketNormalizationInput
  macros : List MacroObservation
  flags : List MarketQualityFlag
  coverageState : CoverageState
  inputManifestHash : String
  outputHash : String

/-- What an identifier is made of. -/
inductive EvidenceName where
  | macroObservation (inputHash : String) (capture : Uuid) (locator : String)
  | marketFlag (inputHash rule : String) (capture : Option Uuid) (day : Option Date) (field locator : Option String)

/-- A response read as JSON; a number is its token. -/
abbrev Json : Type := Tree RawScalar String

/-- The parsed JSON of a body, SHA-256 of bytes, the JSON text of a value, the hashes of an input and of what is made of it, and the
identifier of a name. -/
structure Library where
  loads : List UInt8 → Option Json
  sha256 : List UInt8 → String
  dumps : Json → String
  inputHash : MarketNormalizationInput → String
  outputHash : String → List MacroObservation → List MarketQualityFlag → CoverageState → String
  evidenceId : EvidenceName → Uuid

/-! ### JSON -/

/-- The members of an object. -/
def object? : Json → Option (List (String × Json))
  | .object members => some members
  | _ => none

/-- The items of an array. -/
def list? : Json → Option (List Json)
  | .array items => some items
  | _ => none

/-- The value is a text. -/
def text? : Json → Option String
  | .scalar (.text value) => some value
  | _ => none

/-- `_literal`. -/
def literal (lib : Library) : Json → String
  | .scalar (.token text) => text
  | .scalar (.text text) => text
  | value => lib.dumps value

/-- `_json`. -/
def readJson (lib : Library) (body : List UInt8) : Except Refusal Json := do
  let raw ← orRaise (lib.loads body) .unreadable
  orRaise (raw.traverse some some uniqueKeys) (.valueError "Duplicate JSON key")

/-- `[0-9]+`. -/
def isDigits (text : List Char) : Bool := text ≠ [] && text.all Char.isDigit

/-- `0|[1-9][0-9]*`. -/
def isNatural (text : List Char) : Bool := isDigits text && (text = ['0'] || text.head? ≠ some '0')

/-- `(?:[eE][+-]?[0-9]+)?`. -/
def isExponent : List Char → Bool
  | [] => true
  | sign :: rest => exponentSign sign && isDigits (splitSign rest).2

/-- `(?:\.[0-9]+)?` with what follows. -/
def isFraction : List Char → Bool
  | '.' :: rest => isDigits (rest.takeWhile Char.isDigit) && isExponent (rest.dropWhile Char.isDigit)
  | rest => isExponent rest

/-- `NUMBER`. -/
def isNumber (text : List Char) : Bool :=
  let unsigned := match text with
    | '-' :: rest => rest
    | rest => rest
  isNatural (unsigned.takeWhile Char.isDigit) && isFraction (unsigned.dropWhile Char.isDigit)

/-- The exponents that the decimals of the platform have. -/
def Constructible (d : Decimal) : Prop := -1999999999999999997 ≤ d.exponent ∧ d.adjusted ≤ 999999999999999999

instance (d : Decimal) : Decidable (Constructible d) := inferInstanceAs (Decidable (_ ∧ _))

/-- `_decimal`. -/
def decimalOf (text : String) : Option Decimal :=
  if isNumber text.toList = true then (Decimal.ofText text.toList).filter (Constructible ·) else none

/-- `date.fromisoformat` of a text of the form `[0-9]{4}-[0-9]{2}-[0-9]{2}`. -/
def isoDate : List Char → Except Refusal Date
  | [y₁, y₂, y₃, y₄, '-', m₁, m₂, '-', d₁, d₂] =>
    if isDigits [y₁, y₂, y₃, y₄, m₁, m₂, d₁, d₂] = true then
      orRaise (Date.ofFields? (digitsNumber [y₁, y₂, y₃, y₄]) (digitsNumber [m₁, m₂]) (digitsNumber [d₁, d₂])) .unreadable
    else refuse "Expected exact source DATE"
  | _ => refuse "Expected exact source DATE"

/-- `_date`. -/
def dateOf (value : Option Json) : Except Refusal Date := do
  let text ← orRaise (value.bind text?) (.valueError "Expected exact source DATE")
  isoDate text.toList

/-- `_integer`. -/
def integerOf : Option Json → Except Refusal ℕ
  | some (.scalar (.token text)) =>
    if isNatural text.toList = true then .ok (digitsNumber text.toList) else refuse "Invalid integral FRED pagination metadata"
  | _ => refuse "Invalid integral FRED pagination metadata"

/-! ### Checks of the input -/

/-- The loop of `_validate`. -/
def checkCaptures (inputs : MarketNormalizationInput) : List Uuid → List EvidenceCapture → Except Refusal Unit
  | _, [] => .ok ()
  | ids, capture :: rest => do
    require (capture.id ∉ ids ∧ capture.sourceId = inputs.sourceId) "Capture identity/source mismatch"
    require (isDigest capture.bodySha256 = true) "Invalid capture content evidence"
    require (capture.fetchedAt ≤ capture.completedAt) "Capture completion precedes retrieval"
    require (∀ cutoff ∈ inputs.retrievalCutoff, capture.completedAt ≤ cutoff) "Capture is later than retrieval cutoff"
    checkCaptures inputs (capture.id :: ids) rest

/-- `_validate`. -/
def validate (inputs : MarketNormalizationInput) : Except Refusal Unit := do
  require (inputs.requestedStart ≤ inputs.requestedEnd) "Reversed request bounds"
  require (hasText inputs.parserRevision = true ∧ hasText inputs.normalizerRevision = true ∧
    hasText inputs.selectionPolicyRevision = true) "Pinned interpretation revisions required"
  checkCaptures inputs [] inputs.captures

/-- `_definition`. -/
def definitionOf (inputs : MarketNormalizationInput) : Except Refusal MacroSeriesDefinition := do
  let scope := "Macro scope requires one definition and no quote identity"
  let definition ← orRaise inputs.seriesDefinition (.valueError scope)
  require (inputs.hasQuoteBinding = false ∧ inputs.hasQuoteContext = false) scope
  require (definition.sourceId = inputs.sourceId) "Definition source mismatch"
  require (∃ c ∈ inputs.captures, c.id = definition.metadataCaptureId ∧ c.role = "series_definition")
    "Definition evidence is not pinned"
  require (definition.unitCode ∈ ["percent_per_year", "percent", "percentage_points", "basis_points", "index", "count"])
    "Unsupported macro unit"
  require (∃ multiplier ∈ definition.unitMultiplier.decimal?, 0 < multiplier.signed)
    "Unit multiplier must be an exact positive finite decimal"
  require (definition.frequency ∈ ["daily", "business_day", "weekly", "monthly", "quarterly", "annual"])
    "Unsupported macro frequency"
  require (definition.seasonalAdjustment ∈ ["adjusted", "not_adjusted", "not_applicable", "unknown"]) "Unsupported seasonal basis"
  require (definition.referenceDateConvention ∈ ["measurement_date", "period_start"])
    "Unsupported macro reference-date convention"
  require (∀ text ∈ [definition.sourceSeriesKey, definition.sourceLocator, definition.definitionRevision, definition.unitsText,
    definition.referenceDateConvention, definition.upstreamSourceName, definition.upstreamRightsReference, definition.geography],
    text ≠ "") "Reviewed macro interpretation evidence required"
  require (isDigest definition.contentSha256 = true) "Invalid definition content hash"
  require (definition.definitionAsOfBasis ∈ ["source_supplied", "capture_only", "unknown"]) "Unsupported definition vintage basis"
  require (definition.definitionAsOfBasis = "source_supplied" ↔ definition.definitionAsOfDate ≠ none)
    "Definition vintage basis and date disagree"
  return definition

/-- The day starts a period of a frequency. -/
def StartsPeriod (day : Date) (frequency : String) : Prop :=
  day.day = 1 ∧ (frequency = "quarterly" → day.month ∈ [1, 4, 7, 10]) ∧ (frequency = "annual" → day.month = 1)

instance (day : Date) (frequency : String) : Decidable (StartsPeriod day frequency) := inferInstanceAs (Decidable (_ ∧ _))

/-- `_reference_date`. -/
def checkReferenceDate (day : Date) (definition : MacroSeriesDefinition) : Except Refusal Unit :=
  if definition.referenceDateConvention = "measurement_date" then
    require (definition.frequency ∈ ["daily", "business_day"]) "Unsupported native reference-date/frequency combination"
  else do
    require (definition.frequency ∈ ["monthly", "quarterly", "annual"])
      "Period-start convention requires a reviewed calendar frequency"
    require (StartsPeriod day definition.frequency) "Reference label is not the reviewed period start"

/-- `_capture`. -/
def captureOf (lib : Library) (inputs : MarketNormalizationInput) (captureId : Uuid) (body : List UInt8) (key : String) :
    Except Refusal EvidenceCapture :=
  match inputs.captures.filter fun c => c.id = captureId ∧ c.role = "observations" with
  | [capture] => do
    require (capture.sourceObjectKey = key) "Unexpected source resource identity"
    require (capture.byteCount = body.length ∧ capture.bodySha256 = lib.sha256 body) "Capture bytes differ from pinned evidence"
    return capture
  | _ => refuse "Missing unique observation capture"

/-- `_flag`. -/
def flagOf (lib : Library) (inputs : MarketNormalizationInput) (rule message : String) (capture : Option Uuid := none)
    (day : Option Date := none) (field : Option String := none) (locator : Option String := none) (severity : Severity := .blocking) :
    MarketQualityFlag :=
  ⟨lib.evidenceId (.marketFlag (lib.inputHash inputs) rule capture day field locator), day, field, rule, severity, message, capture,
    locator⟩

/-! ### Observations -/

/-- What is read of an observation. -/
structure Reading where
  day : Date
  dayText : String
  realtimeStart : Date
  realtimeEnd : Date
  value : Option Decimal
  state : MacroState
  text : Option String

/-- An observation, before its place in the series is looked at. -/
def readObservation (lib : Library) (definition : MacroSeriesDefinition) (raw : Json) : Except Refusal Reading := do
  let row ← orRaise (object? raw) (.valueError "Malformed FRED observation")
  let day ← dateOf (row.lookup "date")
  checkReferenceDate day definition
  let realtimeStart ← dateOf (row.lookup "realtime_start")
  let realtimeEnd ← dateOf (row.lookup "realtime_end")
  let original := (row.lookup "value").bind text?
  let value := original.bind decimalOf
  let state := if value ≠ none then MacroState.observed else if original = some "." then .sourceMissing else .unparseable
  return ⟨day, ((row.lookup "date").bind text?).getD "", realtimeStart, realtimeEnd, value, state,
    (row.lookup "value").map (literal lib)⟩

/-- Two intervals have a day in common: `begin <= old_end and old_begin <= end`. -/
def Overlap (a b : Date × Date) : Prop := a.1 ≤ b.2 ∧ b.1 ≤ a.2

instance (a b : Date × Date) : Decidable (Overlap a b) := inferInstanceAs (Decidable (_ ∧ _))

/-- The interval of a reading. -/
def Reading.interval (r : Reading) : Date × Date := (r.realtimeStart, r.realtimeEnd)

/-- The source states the reading on the day that is asked for. -/
def Reading.Admitted (r : Reading) (asOf : Option Date) : Prop := ∀ day ∈ asOf, r.realtimeStart ≤ day ∧ day ≤ r.realtimeEnd

instance (r : Reading) (asOf : Option Date) : Decidable (r.Admitted asOf) := inferInstanceAs (Decidable (∀ _ ∈ _, _))

/-- What has been seen of the observations; `intervals` has the intervals of each date. -/
structure Scan where
  rows : List MacroObservation := []
  flags : List MarketQualityFlag := []
  intervals : List (Date × (Date × Date)) := []
  previousDate : Option Date := none

/-- The observation is within the bounds of the request and not before the one before it. -/
def InBounds (inputs : MarketNormalizationInput) (page : FredPage) (s : Scan) (r : Reading) : Prop :=
  (inputs.requestedStart ≤ r.day ∧ r.day ≤ inputs.requestedEnd) ∧ r.realtimeStart ≤ r.realtimeEnd ∧
    page.realtimeStart ≤ r.realtimeStart ∧ r.realtimeEnd ≤ page.realtimeEnd ∧ ∀ day ∈ s.previousDate, day ≤ r.day

instance (inputs : MarketNormalizationInput) (page : FredPage) (s : Scan) (r : Reading) : Decidable (InBounds inputs page s r) :=
  inferInstanceAs (Decidable (_ ∧ _))

/-- The vintage of the rows of a page. -/
def basisOf (page : FredPage) (asOf : Option Date) : VintageBasis :=
  match asOf with
  | none => .currentOnly
  | some day => if page.realtimeStart = page.realtimeEnd ∧ page.realtimeEnd = day then .requestedAsOf else .sourceInterval

/-- The row of a reading. -/
def rowOf (lib : Library) (inputs : MarketNormalizationInput) (definition : MacroSeriesDefinition) (page : FredPage)
    (capture : EvidenceCapture) (locator : String) (r : Reading) : MacroObservation :=
  ⟨lib.evidenceId (.macroObservation (lib.inputHash inputs) capture.id locator), r.day, definition.id, capture.id, locator, r.dayText,
    r.value, r.state, r.text, inputs.normalizerRevision, r.realtimeStart, r.realtimeEnd, basisOf page inputs.sourceAsOfDate,
    inputs.sourceAsOfDate⟩

/-- The flags of a reading without a value. -/
def flagsOf (lib : Library) (inputs : MarketNormalizationInput) (capture : EvidenceCapture) (locator : String) (r : Reading) :
    List MarketQualityFlag :=
  if r.state = .observed then []
  else [flagOf lib inputs (if r.state = .sourceMissing then "source_missing" else "unparseable_value")
    "Native FRED value unavailable; original spelling retained" (some capture.id) (some r.day) (some "value") (some locator)]

/-- The inner loop of `normalize_fred`. -/
def observe (lib : Library) (inputs : MarketNormalizationInput) (definition : MacroSeriesDefinition) (page : FredPage)
    (capture : EvidenceCapture) (s : Scan) (entry : Json × ℕ) : Except Refusal Scan := do
  let r ← readObservation lib definition entry.1
  require (InBounds inputs page s r) "FRED observation outside date/vintage/order bounds"
  require (¬ ∃ seen ∈ s.intervals, seen.1 = r.day ∧ Overlap r.interval seen.2) "Duplicate or conflicting FRED revision intervals"
  let s := { s with previousDate := some r.day, intervals := s.intervals ++ [(r.day, r.interval)] }
  if r.Admitted inputs.sourceAsOfDate then
    let locator := "$.observations[" ++ toString entry.2 ++ "]"
    return { s with
      rows := s.rows ++ [rowOf lib inputs definition page capture locator r]
      flags := s.flags ++ flagsOf lib inputs capture locator r }
  else return s

/-! ### Pages -/

/-- Where the next page starts, and how many observations there are. -/
structure Position where
  expectedOffset : ℕ := 0
  total : Option ℕ := none
deriving DecidableEq

/-- What was requested with a page is what the input and the first page ask for. -/
def RequestFits (inputs : MarketNormalizationInput) (definition : MacroSeriesDefinition) (first page : FredPage) : Prop :=
  page.seriesId = definition.sourceSeriesKey ∧ page.observationStart = inputs.requestedStart ∧
    page.observationEnd = inputs.requestedEnd ∧ page.units = "lin" ∧ page.outputType = 1 ∧ page.frequency = none ∧
    page.aggregationMethod = none ∧ page.orderBy = "observation_date" ∧ page.sortOrder = "asc" ∧
    page.realtimeStart = first.realtimeStart ∧ page.realtimeEnd = first.realtimeEnd ∧ 0 < page.limit ∧ page.limit ≤ 100000

instance (inputs : MarketNormalizationInput) (definition : MacroSeriesDefinition) (first page : FredPage) :
    Decidable (RequestFits inputs definition first page) := inferInstanceAs (Decidable (_ ∧ _))

/-- The envelope of a page agrees with what was requested. -/
def checkEnvelope (page : FredPage) (data : List (String × Json)) : Except Refusal Unit := do
  let disagreement := "FRED envelope disagrees with exact request"
  let get := fun (key : String) => data.lookup key
  require ((get "units").bind text? = some "lin") disagreement
  require ((← integerOf (get "output_type")) = 1) disagreement
  require ((get "order_by").bind text? = some "observation_date") disagreement
  require ((get "sort_order").bind text? = some "asc") disagreement
  require ((get "file_type").bind text? = some "json") disagreement
  require ((← dateOf (get "observation_start")) = page.observationStart) disagreement
  require ((← dateOf (get "observation_end")) = page.observationEnd) disagreement
  require ((← dateOf (get "realtime_start")) = page.realtimeStart) disagreement
  require ((← dateOf (get "realtime_end")) = page.realtimeEnd) disagreement
  require ((← integerOf (get "offset")) = page.offset) disagreement
  require ((← integerOf (get "limit")) = page.limit) disagreement
  require (∀ value ∈ get "series_id", text? value = some page.seriesId) disagreement

/-- The members of the response that a page is. -/
def responseOf (lib : Library) (page : FredPage) : Except Refusal (List (String × Json)) := do
  orRaise (object? (← readJson lib page.body)) (.valueError "FRED response is not an observation page")

/-- A page of the outer loop of `normalize_fred`, up to its observations. -/
def openPage (lib : Library) (inputs : MarketNormalizationInput) (definition : MacroSeriesDefinition) (first : FredPage)
    (position : Position) (page : FredPage) : Except Refusal (Position × EvidenceCapture × List Json) := do
  let capture ← captureOf lib inputs page.captureId page.body ("fred_observations/" ++ definition.sourceSeriesKey)
  require (RequestFits inputs definition first page ∧ page.offset = position.expectedOffset)
    "FRED request pages are incomplete or change native series/filter/vintage"
  let data ← responseOf lib page
  let observations ← orRaise ((data.lookup "observations").bind list?) (.valueError "FRED response is not an observation page")
  checkEnvelope page data
  let count ← integerOf (data.lookup "count")
  require (∀ total ∈ position.total, count = total) "FRED count changed between pages"
  require (observations.length = min page.limit (count - page.offset) ∧ page.offset ≤ count) "Incomplete FRED page length"
  return (⟨position.expectedOffset + observations.length, some count⟩, capture, observations)

/-- The outer loop of `normalize_fred`. -/
def visitPage (lib : Library) (inputs : MarketNormalizationInput) (definition : MacroSeriesDefinition) (first : FredPage)
    (state : Position × Scan) (page : FredPage) : Except Refusal (Position × Scan) := do
  let (position, capture, observations) ← openPage lib inputs definition first state.1 page
  let scan ← observations.zipIdx.foldlM (observe lib inputs definition page capture) state.2
  return (position, scan)

/-! ### Series -/

/-- `_bundle`. -/
def bundleOf (lib : Library) (inputs : MarketNormalizationInput) (s : Scan) : MarketNormalizationBundle :=
  let coverage : CoverageState :=
    if s.rows = [] then .unavailable else if ∃ flag ∈ s.flags, flag.severity = .blocking then .partly else .unknown
  let absent := if s.rows = [] ∧ s.flags = [] then
    [flagOf lib inputs "source_rows_absent" "No source observations in requested window"] else []
  let flags := s.flags ++ absent ++ [flagOf lib inputs "calendar_coverage_unknown"
    "Complete source response does not prove calendar coverage" none none none none .info]
  ⟨inputs, s.rows, flags, coverage, lib.inputHash inputs, lib.outputHash (lib.inputHash inputs) s.rows flags coverage⟩

/-- The pinned observation captures are those of the pages. -/
def CapturesMatch (pages : List FredPage) (inputs : MarketNormalizationInput) : Prop :=
  (∀ c ∈ inputs.captures, c.role = "observations" → c.id ∈ pages.map (·.captureId)) ∧
    ∀ page ∈ pages, ∃ c ∈ inputs.captures, c.role = "observations" ∧ c.id = page.captureId

instance (pages : List FredPage) (inputs : MarketNormalizationInput) : Decidable (CapturesMatch pages inputs) :=
  inferInstanceAs (Decidable (_ ∧ _))

/-- `normalize_fred`. -/
def normalizeFred (lib : Library) (pages : List FredPage) (inputs : MarketNormalizationInput) :
    Except Refusal MarketNormalizationBundle := do
  validate inputs
  let definition ← definitionOf inputs
  require (pages ≠ [] ∧ (pages.map (·.captureId)).Nodup) "Missing or duplicate FRED capture pages"
  require (CapturesMatch pages inputs) "FRED page captures differ from pinned observation inputs"
  let ordered := Sorting.byKey (·.offset) pages
  let first ← orRaise ordered.head? (.valueError "Missing or duplicate FRED capture pages")
  require (first.realtimeStart ≤ first.realtimeEnd) "Reversed FRED source-vintage interval"
  require (∀ day ∈ inputs.sourceAsOfDate, first.realtimeStart ≤ day ∧ day ≤ first.realtimeEnd)
    "Explicit request does not cover source-as-of date"
  let (position, scan) ← ordered.foldlM (visitPage lib inputs definition first) ({}, {})
  require (position.total = some position.expectedOffset) "Missing FRED pages"
  return bundleOf lib inputs scan

end EquityEval.Pagination
