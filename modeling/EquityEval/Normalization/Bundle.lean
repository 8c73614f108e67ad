import EquityEval.Normalization.Inputs
import EquityEval.Relational.Table
import Mathlib.Data.List.MinMax

/-!
# Normalization

For each concept of each request the rows of the tags of its rule are looked through. A row is
considered when it is of the filing and its period and unit can be read; it is eligible unless something
rejects it. The eligible rows are compared, and one of them is chosen. An input that contradicts itself
is refused; a choice among no rows is a crash.
-/

namespace EquityEval.Normalization

open Workflow DecimalArithmetic Gregorian PointInTime
open Fundamentals (PeriodSpec UnitSpec ScopeSpec conceptText)
open Relational (orRaise)

/-- Why nothing is returned: the input was refused, or a computation failed that checks nothing. -/
inductive Failure where
  | refused
  | crashed
deriving DecidableEq, Repr

/-! ### Rows -/

/-- A row of a tag, with where it stands. -/
structure SourceRow where
  qualified : String
  nameSpace : String
  tag : String
  definition : List (String × SourceValue)
  rawUnit : String
  index : ℕ
  fields : List (String × SourceValue)

/-- `qualified.split(":", 1)`; nothing where there is no colon. -/
def splitTag (qualified : String) : Option (String × String) :=
  match qualified.toList.dropWhile (· ≠ ':') with
  | [] => none
  | _ :: tag => some (String.ofList (qualified.toList.takeWhile (· ≠ ':')), String.ofList tag)

/-- The rows of a unit that are of a filing. -/
def unitRows (accession qualified nameSpace tag : String) (definition : List (String × SourceValue))
    (unit : String × SourceValue) : List SourceRow :=
  ((items? unit.2).getD []).zipIdx.filterMap fun item =>
    (members? item.1).bind fun fields =>
      if (fields.lookup "accn").bind text? = some accession then
        some ⟨qualified, nameSpace, tag, definition, unit.1, item.2, fields⟩
      else none

/-- The rows of a tag that are of a filing; nothing where the tag has no namespace. -/
def tagRows (facts : List (String × SourceValue)) (accession qualified : String) : Option (List SourceRow) :=
  (splitTag qualified).map fun (nameSpace, tag) =>
    let definition := memberOr (memberOr (.object facts) (.object []) nameSpace) (.object []) tag
    match members? definition with
    | none => []
    | some definition =>
      ((members? (memberOr (.object definition) (.object []) "units")).getD []).flatMap
        (unitRows accession qualified nameSpace tag definition)

/-- A row whose period and unit were read. -/
structure Sighting extends SourceRow where
  period : PeriodSpec
  unit : UnitSpec

/-- The unit as a part of a locator. -/
def escapedUnit (unit : String) : String :=
  String.ofList (unit.toList.flatMap fun c => if c = '~' then ['~', '0'] else if c = '/' then ['~', '1'] else [c])

/-- Where a row stands. -/
def SourceRow.locator (row : SourceRow) : String :=
  "/facts/" ++ row.nameSpace ++ "/" ++ row.tag ++ "/units/" ++ escapedUnit row.rawUnit ++ "/" ++ toString row.index

/-- The tag of a row by its namespace. -/
def SourceRow.tagName (row : SourceRow) : String := row.nameSpace ++ ":" ++ row.tag

/-- The row as it stands in the document. -/
def SourceRow.raw (env : Readers) (row : SourceRow) : String := sourceJson env (.object row.fields)

/-- The row with its period and unit, if both can be read. -/
def SourceRow.sighting (env : Readers) (row : SourceRow) : Option Sighting := do
  let period ← rowPeriod env row.fields
  let unit ← unitSpec env row.rawUnit
  some { row with period := period, unit := unit }

/-! ### One concept -/

/-- What the rows of a concept are compared with. -/
structure Question where
  inputs : NormalizationInput
  cik : SourceValue
  filing : FilingMetadata
  request : CoverageRequest
  concept : Concept
  unit : UnitSpec
  rule : MappingRule

namespace Question

variable (env : Readers) (q : Question)

/-- The row is of the request's period and of the concept's unit. -/
def Exact (s : Sighting) : Prop := s.period.id = q.request.period.id ∧ s.unit.id = q.unit.id

/-- The row agrees with the date and the form of the filing. -/
def Agrees (s : Sighting) : Prop :=
  (s.fields.lookup "filed").bind text? = some (dateText q.filing.filedDate) ∧
    (s.fields.lookup "form").bind text? = some q.filing.form

instance (s : Sighting) : Decidable (q.Exact s) := inferInstanceAs (Decidable (_ ∧ _))

instance (s : Sighting) : Decidable (q.Agrees s) := inferInstanceAs (Decidable (_ ∧ _))

/-- Why a row is not eligible. -/
def rejection (s : Sighting) : Option String :=
  if s.qualified ∈ q.rule.rejectedTags then some ("excluded_economic_scope: " ++ q.rule.rationale)
  else if ¬ q.Exact s then some "different_period_or_unit"
  else if ¬ q.Agrees s then some "filing_metadata_conflict"
  else (numericOf env s.fields).error?

/-- The observation of a row. -/
def observation (s : Sighting) : Observation where
  id := env.evidenceId (.observation q.inputs.companyfactsCaptureId s.locator)
  sourceCaptureId := q.inputs.companyfactsCaptureId
  filingVersionId := q.filing.id
  sourceLocator := s.locator
  nameSpace := s.nameSpace
  tag := s.tag
  periodId := s.period.id
  unitId := s.unit.id
  semanticScopeId := if s.qualified ∈ q.rule.rejectedTags then none else some q.request.scope.id
  numericValue := (numericOf env s.fields).value?
  valueState := if (numericOf env s.fields).error? = none then "numeric" else "unparseable"
  originalNumericText := (numericOf env s.fields).lexical?
  parserRevision := q.inputs.parserRevision
  transformMetadata := "\x7b\"operation\":\"identity_decimal\",\"scale_applied\":false\x7d"
  rawMetadata := env.canonicalMetadata
    { sourceRowJson := s.raw env
      sourceLabel := s.definition.lookup "label"
      sourceDescription := s.definition.lookup "description"
      sourceCikJson := sourceJson env q.cik
      sourceCikType := if (text? q.cik).isSome then "string" else "integer"
      apiUnit := s.rawUnit }

/-- The reasons for which a row has no value. -/
def valueErrors : List String :=
  ["missing_value_field", "json_null_without_reviewed_nil_semantics", "unparseable_source_value"]

/-- The rows hold one number. -/
def SameNumber (a b : Sighting) : Prop :=
  match (numericOf env a.fields).value?, (numericOf env b.fields).value? with
  | some x, some y => x.NumEq y
  | none, none => True
  | _, _ => False

instance (a b : Sighting) : Decidable (SameNumber env a b) := by
  unfold SameNumber
  split <;> infer_instance

/-- The rows of the preferred tag, or all rows where none is preferred. -/
def preferred (eligible : List Sighting) : List Sighting :=
  match q.rule.preferredTag with
  | none => eligible
  | some tag => if tag = "" then eligible else eligible.filter fun s => s.tagName = tag

/-- What has been found of a concept: its status, why it has no value, and the row that was chosen. -/
structure Verdict where
  status : FactStatus
  reason : Option String
  chosen : Option Sighting := none

/-- The choice among eligible rows; nothing where `min` is of no rows. -/
def choose (eligible : List Sighting) : Option Verdict :=
  if ¬ ∀ a ∈ eligible, ∀ b ∈ eligible, SameNumber env a b then some ⟨.ambiguous, some "conflicting_reviewed_observations", none⟩
  else if (∃ a ∈ eligible, ∃ b ∈ eligible, a.tagName ≠ b.tagName) ∧ (q.rule.preferredTag = none ∨ q.preferred eligible = []) then
    some ⟨.ambiguous, some "equivalent_tags_without_reviewed_preference", none⟩
  else if ∃ a ∈ q.preferred eligible, ∃ b ∈ q.preferred eligible, a.raw env ≠ b.raw env then
    some ⟨.ambiguous, some "same_value_different_source_metadata", none⟩
  else ((q.preferred eligible).argmin fun s => s.index).map fun s => ⟨.observed, none, some s⟩

/-- The verdict of the considered rows; nothing where it raises. -/
def judge (considered : List Sighting) : Option Verdict :=
  let eligible := considered.filter fun s => q.rejection env s = none
  let invalid := ((considered.filter fun s => q.Exact s).filterMap (q.rejection env)).filter (· ∈ valueErrors)
  if ∃ s ∈ considered, q.rejection env s = some "filing_metadata_conflict" then
    some ⟨.ambiguous, some "filing_metadata_conflict", none⟩
  else if invalid ≠ [] then some ⟨.missing, invalid.min?, none⟩
  else if eligible = [] then some ⟨.missing, some "no_exact_reviewed_observation", none⟩
  else q.choose env eligible

/-- The row is the chosen one. -/
def Selected (v : Verdict) (s : Sighting) : Prop := ∃ chosen ∈ v.chosen, (q.observation env s).id = (q.observation env chosen).id

instance (v : Verdict) (s : Sighting) : Decidable (q.Selected env v s) := inferInstanceAs (Decidable (∃ _ ∈ _, _))

/-- The identifier of the resolution. -/
def resolutionId : Uuid := env.evidenceId (.resolution q.request.id q.concept q.unit.id)

/-- What has become of a row. -/
def candidate (v : Verdict) (s : Sighting) : Candidate where
  resolutionId := q.resolutionId env
  observationId := (q.observation env s).id
  ruleReference := q.rule.reference
  disposition :=
    if q.Selected env v s then .selected
    else if q.rejection env s = none ∧ v.status = .ambiguous then .conflicting
    else .rejected
  explanation :=
    if q.Selected env v s then "Selected directly reported observation"
    else (q.rejection env s).getD
      (if v.chosen.isSome then "Equivalent duplicate retained; one reviewed representative selected"
      else v.reason.getD "Unresolved candidate")

end Question

/-! ### The document -/

/-- `_flag`. -/
def flagOf (env : Readers) (inputs : NormalizationInput) (request : CoverageRequest) (rule message : String)
    (resolutionId : Option Uuid) : QualityFlag where
  id := env.evidenceId (.flag request.id resolutionId rule message)
  resolutionId := resolutionId
  issuerId := inputs.issuerId
  periodId := some request.period.id
  ruleKey := rule
  severity := "error"
  message := message
  evidenceReferences := (request.evidenceLocator, inputs.companyfactsCaptureId)

/-- A dictionary of records by their identifiers, with one more. -/
def upsert {α : Type} (key : α → Uuid) (items : List α) (item : α) : List α :=
  if key item ∈ items.map key then items.map fun i => if key i = key item then item else i else items ++ [item]

/-- What has been found so far. -/
structure Progress where
  periods : List PeriodSpec
  units : List UnitSpec
  observations : List Observation := []
  resolutions : List Resolution := []
  candidates : List Candidate := []
  flags : List QualityFlag := []
  coverage : List Coverage := []

section Document

variable (env : Readers) (inputs : NormalizationInput) (cik : SourceValue) (facts : List (String × SourceValue))

/-- The flags of a review that does not cover a request. -/
def historyFlag (request : CoverageRequest) (filing : FilingMetadata) (name : String)
    (completeness : Completeness) : List QualityFlag :=
  if completeness.state = .complete ∧ completeness.boundaryStart ≤ min request.period.endDate filing.filedDate ∧
      max filing.filedDate (env.utcDate inputs.capturedBefore) ≤ completeness.boundaryEnd then []
  else
    [flagOf env inputs request (name ++ "_history_incomplete")
      (name ++ " review must cover period end through retrieval assessment") none]

/-- The flags of a request as a whole. -/
def requestFlags (request : CoverageRequest) (filing : FilingMetadata) : List QualityFlag :=
  historyFlag env inputs request filing "inventory" inputs.inventoryCompleteness ++
    historyFlag env inputs request filing "event" inputs.eventCompleteness ++
    if request.coverageState = "unresolved" ∨ request.authorityClass = "unknown" then
      [flagOf env inputs request "unresolved_coverage" "Unresolved coverage blocks usable fallback to an older edition" none]
    else []

/-- What a request covers. -/
def coverageOf (request : CoverageRequest) (filing : FilingMetadata) : Coverage where
  id := request.id
  filingVersionId := filing.id
  periodId := request.period.id
  statementFamily := request.statementFamily
  reportingBasis := request.reportingBasis
  scopeId := request.scope.id
  currencyUnitId := some request.currency.id
  authorityClass := request.authorityClass
  assurance := request.assurance
  coverageState := request.coverageState
  evidenceLocator := request.evidenceLocator
  periodLabel := request.periodLabel

/-- The rule of a concept, or what its resolution is without one. -/
def ruleOf (filing : FilingMetadata) (request : CoverageRequest) (concept : Concept) :
    Except (FactStatus × String) MappingRule :=
  if request.coverageState ≠ "covered" then
    .error (.missing, if request.coverageState = "source_missing" then "source_missing" else "unresolved_coverage")
  else
    match inputs.rulesFor filing request concept with
    | [rule] => if rule.qualifiedTags = [] then .error (.unsupportedScope, "no_reviewed_complete_scope_tag") else .ok rule
    | [] => .error (.unsupportedScope, "no_reviewed_complete_scope_tag")
    | _ => .error (.ambiguous, "conflicting_mapping_rules")

/-- The rows of the tags of a rule; nothing where a tag has no namespace. -/
def ruleRows (filing : FilingMetadata) (rule : MappingRule) : Option (List SourceRow) :=
  ((rule.qualifiedTags ++ rule.rejectedTags).mapM (tagRows facts filing.accession)).map List.flatten

/-- The observations with more of them; nothing where one that is known comes with another interpretation. -/
def mergeObservations (known : List Observation) (more : List Observation) : Option (List Observation) :=
  more.foldlM (fun known o =>
    match known.find? fun previous => previous.id = o.id with
    | some previous => if previous = o then some known else none
    | none => some (known ++ [o])) known

/-- The resolution of a concept. -/
def resolutionOf (request : CoverageRequest) (concept : Concept) (unit : UnitSpec) (status : FactStatus)
    (selected : Option Uuid) (reason : Option String) : Resolution where
  id := env.evidenceId (.resolution request.id concept unit.id)
  coverageId := request.id
  conceptStd := concept
  semanticScopeId := request.scope.id
  instrumentId := request.scope.instrumentId
  unitId := unit.id
  status := status
  selectedObservationId := selected
  reason := reason

/-- The flag of a resolution that is not observed. -/
def resolutionFlag (request : CoverageRequest) (concept : Concept) (unit : UnitSpec) (status : FactStatus)
    (reason : Option String) : List QualityFlag :=
  if status = .observed then []
  else
    [flagOf env inputs request (reason.getD "") (conceptText concept ++ ": " ++ reason.getD "")
      (some (env.evidenceId (.resolution request.id concept unit.id)))]

/-- The flags of rows whose period or unit cannot be read. -/
def rowFlags (request : CoverageRequest) (resolutionId : Uuid) (rows : List SourceRow) : List QualityFlag :=
  rows.filterMap fun row =>
    if (row.sighting env).isNone then
      some (flagOf env inputs request "unsupported_row_identity" ("Unparseable period/unit at " ++ row.locator)
        (some resolutionId))
    else none

/-- The progress with the outcome of a concept that has a rule. -/
def Progress.record (p : Progress) (q : Question) (rows : List SourceRow) (observations : List Observation)
    (v : Question.Verdict) : Progress :=
  let considered := rows.filterMap (·.sighting env)
  { p with
    periods := (considered.map (·.period)).foldl (upsert (·.id)) p.periods
    units := (considered.map (·.unit)).foldl (upsert (·.id)) (upsert (·.id) p.units q.unit)
    observations := observations
    resolutions := p.resolutions ++ [resolutionOf env q.request q.concept q.unit v.status
      (v.chosen.map fun s => (q.observation env s).id) v.reason]
    candidates := p.candidates ++ considered.map (q.candidate env v)
    flags := p.flags ++ rowFlags env inputs q.request (q.resolutionId env) rows ++
      resolutionFlag env inputs q.request q.concept q.unit v.status v.reason }

/-- The progress with the outcome of a concept that has no rule. -/
def Progress.recordGap (p : Progress) (request : CoverageRequest) (concept : Concept) (unit : UnitSpec) (status : FactStatus)
    (reason : String) : Progress :=
  { p with
    units := upsert (·.id) p.units unit
    resolutions := p.resolutions ++ [resolutionOf env request concept unit status none (some reason)]
    flags := p.flags ++ resolutionFlag env inputs request concept unit status (some reason) }

/-- One concept of a request. -/
def visitConcept (filing : FilingMetadata) (request : CoverageRequest) (p : Progress) (concept : Concept) :
    Except Failure Progress := do
  let unit ← orRaise (unitSpec env (conceptUnit concept request.currency.unitKey)) .refused
  match ruleOf inputs filing request concept with
  | .error (status, reason) => pure (p.recordGap env inputs request concept unit status reason)
  | .ok rule => do
    let q : Question := ⟨inputs, cik, filing, request, concept, unit, rule⟩
    let rows ← orRaise (ruleRows facts filing rule) .refused
    let considered := rows.filterMap (·.sighting env)
    let observations ← orRaise (mergeObservations p.observations (considered.map (q.observation env))) .refused
    let verdict ← orRaise (q.judge env considered) .crashed
    pure (p.record env inputs q rows observations verdict)

/-- One request. -/
def visitRequest (p : Progress) (request : CoverageRequest) : Except Failure Progress := do
  let filing ← orRaise (inputs.filingOf request) .refused
  request.concepts.foldlM (visitConcept env inputs cik facts filing request)
    { p with
      coverage := p.coverage ++ [coverageOf request filing]
      flags := p.flags ++ requestFlags env inputs request filing }

end Document

/-- The hashes of what goes into a bundle and of what comes out. -/
structure Finish where
  inputHash : NormalizationInput → String
  outputHash : NormalizationBundle → String

/-- The bundle of what has been found. -/
def bundleOf (finish : Finish) (inputs : NormalizationInput) (p : Progress) : NormalizationBundle :=
  let bundle : NormalizationBundle :=
    { inputs := inputs
      periods := p.periods.insertionSort fun a b => a.id ≤ b.id
      units := p.units.insertionSort fun a b => a.id ≤ b.id
      scopes := ((inputs.requests.map (·.scope)).foldl (upsert (·.id)) []).insertionSort fun a b => a.id ≤ b.id
      filings := inputs.filings
      coverage := p.coverage
      observations := p.observations.insertionSort fun a b => a.id ≤ b.id
      resolutions := p.resolutions
      candidates := p.candidates
      qualityFlags := p.flags.foldl (upsert (·.id)) []
      inputManifestHash := finish.inputHash inputs
      outputManifestHash := ""
      originalHistoryComplete := inputs.inventoryCompleteness.state = .complete ∧ inputs.eventCompleteness.state = .complete ∧
        ¬ ∃ flag ∈ p.flags, "history_incomplete".toList.isSuffixOf flag.ruleKey.toList = true }
  { bundle with outputManifestHash := finish.outputHash bundle }

/-- `normalize_verified_bytes`. -/
def normalizeVerifiedBytes (env : Readers) (finish : Finish) (body : List UInt8) (inputs : NormalizationInput) :
    Except Failure NormalizationBundle := do
  if ¬ inputs.Valid env body then .error .refused
  else
    let document ← orRaise (parseCompanyfacts env body) .refused
    let cik ← orRaise (document.lookup "cik") .refused
    let canonical ← orRaise (canonicalCik cik) .refused
    if canonical ≠ inputs.cik then .error .refused
    else
      let facts ← orRaise ((document.lookup "facts").bind members?) .refused
      let p ← inputs.requests.foldlM (visitRequest env inputs cik facts)
        { periods := (inputs.requests.map (·.period)).foldl (upsert (·.id)) []
          units := (inputs.requests.map (·.currency)).foldl (upsert (·.id)) [] }
      pure (bundleOf finish inputs p)

end EquityEval.Normalization
