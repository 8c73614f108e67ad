import EquityEval.Arithmetic.Signals
import EquityEval.Calendar.Gregorian
import EquityEval.PointInTime.Reader
import EquityEval.Vintage.Manifest

/-!
# Financial inputs

A financial input is one concept of a selected statement with the period, unit and scope it was
selected in. Its flags collect everything about the selection that does not fit; it has a value only
when no flag blocks it. How JSON, digests and URLs are read is a parameter.
-/

namespace EquityEval.Fundamentals

open Workflow DecimalArithmetic Gregorian PointInTime
open Discovery (sortedSet mem_sortedSet sortedSet_eq_nil)
open Vintage (hasText)

/-- A flag that is raised when a condition holds. -/
def flagIf (condition : Prop) [Decidable condition] (flag : String) : List String := if condition then [flag] else []

/-- A flag is not raised exactly when its condition fails. -/
@[simp] theorem flagIf_eq_nil {condition : Prop} [Decidable condition] {flag : String} :
    flagIf condition flag = [] ↔ ¬ condition := by
  unfold flagIf
  split <;> simp_all

/-! ### Texts -/

/-- What is compared of a value in a parsed JSON object. -/
inductive Entry where
  | null
  | text (value : String)
  | other
deriving DecidableEq, Repr

/-- How texts are read: the object that `json.loads` returns, the SHA-256 digest, whether a text is
the URL of a page without credentials, and the decimal digits of a regular expression. -/
structure Texts where
  loads : String → Option (List (String × Entry))
  sha256 : String → String
  webAddress : String → Bool
  isDecimal : Char → Bool

/-- The text is a currency code: `[A-Z]{3}`. -/
def currencyCode (text : String) : Bool := text.length = 3 && text.toList.all Char.isUpper

/-- The text is an accession number: `\d{10}-\d{2}-\d{6}`. -/
def Texts.accession (t : Texts) (text : String) : Bool :=
  let characters := text.toList
  decide (characters.length = 20) && (characters.take 10).all t.isDecimal && characters[10]? = some '-' &&
    ((characters.drop 11).take 2).all t.isDecimal && characters[13]? = some '-' && (characters.drop 14).all t.isDecimal

/-- `_valid_ids`. -/
def validIds (ids : List Uuid) (allowEmpty : Bool := false) : Prop := (allowEmpty = true ∨ ids ≠ []) ∧ ids.Nodup

instance (ids : List Uuid) (allowEmpty : Bool) : Decidable (validIds ids allowEmpty) :=
  inferInstanceAs (Decidable (_ ∧ _))

/-! ### Selections -/

/-- A selected fact; its value may be any number. -/
structure SelectedFact where
  concept : Concept
  value : Option Number
  status : FactStatus
  resolutionIds : List Uuid
  observationIds : List Uuid
  accession : Option String
  filedDate : Option Day
  sourceUrl : Option String
  sourceLocator : Option String
  captureIds : List Uuid
  sourceHashes : List String
  sourceTag : Option String
  originalNumericText : Option String
  transformJson : Option String
  flags : List String
deriving DecidableEq

/-- A selected statement. -/
structure StatementSelection where
  query : PitQuery
  coverageIds : List Uuid
  filingVersionIds : List Uuid
  facts : List SelectedFact
  flags : List String
  qualityFlagIds : List Uuid
  eventIds : List Uuid
  usableForValuation : Bool
  reportingBasis : Option String
  inputHash : String
deriving DecidableEq

/-- The period of a statement. -/
structure PeriodSpec where
  id : Uuid
  periodKind : PeriodKind
  startDate : Option Date
  endDate : Date
deriving DecidableEq

/-- The period is an instant, or it starts no later than it ends. -/
def PeriodSpec.Valid (p : PeriodSpec) : Prop :=
  (p.periodKind = .instant ∧ p.startDate = none) ∨ (p.periodKind = .duration ∧ ∃ start ∈ p.startDate, start ≤ p.endDate)

instance (p : PeriodSpec) : Decidable p.Valid := inferInstanceAs (Decidable (_ ∨ _))

/-- The unit of a statement. -/
structure UnitSpec where
  id : Uuid
  unitKey : String
  numeratorMeasures : List String
  denominatorMeasures : List String
deriving DecidableEq

/-- The scope of a statement. -/
structure ScopeSpec where
  id : Uuid
  issuerId : Uuid
  instrumentId : Option Uuid
  scopeKind : String
  descriptorSchemaVersion : ℤ
  descriptorJson : String
  contentSha256 : String
deriving DecidableEq

/-- A source-evidenced absolute uncertainty. -/
structure PrecisionEvidence where
  absoluteError : Decimal
  observationIds : List Uuid
  evidenceRefs : List String
  method : String
  nonnegative : 0 ≤ absoluteError.signed
  identified : validIds observationIds
  evidenced : evidenceRefs ≠ [] ∧ (∀ ref ∈ evidenceRefs, hasText ref = true) ∧ hasText method = true
deriving DecidableEq

/-- One concept and its exact source-selection context. -/
structure FinancialInput where
  selection : StatementSelection
  concept : Concept
  period : PeriodSpec
  unit : UnitSpec
  scope : ScopeSpec
  precision : Option PrecisionEvidence
deriving DecidableEq

/-- What two inputs of one history share. -/
structure HistoryKey where
  issuerId : Uuid
  securityId : Option Uuid
  currencyUnitId : Uuid
  mode : PointInTime.HistoryMode
  filedCutoff : Option Day
  capturedBefore : Instant
  batchIds : List Uuid
  captureIds : List Uuid
  filingEventIds : List Uuid
  mappingRevisionId : Uuid
  normalizerRevision : String
  authorityPolicyRevision : String
  additionalQualityFlagIds : List Uuid
  auditedRequired : Bool
  allowReviewedEquivalent : Bool
  originalHistoryComplete : Bool
deriving DecidableEq

/-- The unit with a key is well formed: its measures are those of the key. -/
def UnitSpec.valid (u : UnitSpec) : Bool :=
  let currency := String.ofList (u.unitKey.toList.take 3)
  if u.unitKey = "shares" then
    u.numeratorMeasures = ["xbrli:shares"] && u.denominatorMeasures = []
  else if currencyCode u.unitKey then
    u.numeratorMeasures = ["iso4217:" ++ u.unitKey] && u.denominatorMeasures = []
  else if currencyCode currency && u.unitKey.toList.drop 3 = "/shares".toList then
    u.numeratorMeasures = ["iso4217:" ++ currency] && u.denominatorMeasures = ["xbrli:shares"]
  else false

/-- The descriptor of a scope is the evidence that its columns name. -/
def ScopeSpec.valid (t : Texts) (s : ScopeSpec) : Bool :=
  match t.loads s.descriptorJson with
  | none => false
  | some descriptor =>
    decide (s.descriptorSchemaVersion = 1) && t.sha256 s.descriptorJson = s.contentSha256 &&
      descriptor.lookup "consolidation" = some (.text s.scopeKind) && s.scopeKind ≠ "" &&
      descriptor.lookup "instrument" = some (s.instrumentId.elim .null fun id => .text (toString id)) &&
      (match descriptor.lookup "scope_evidence" with
        | some (.text evidence) => hasText evidence
        | _ => false)

namespace FinancialInput

variable (t : Texts) (i : FinancialInput)

/-- The only fact of the concept. -/
def fact : Option SelectedFact :=
  match i.selection.facts.filter fun fact => fact.concept = i.concept with
  | [fact] => some fact
  | _ => none

/-- What the input shares with the others of its history. -/
def historyKey : HistoryKey :=
  let q := i.selection.query
  { issuerId := q.issuerId, securityId := q.securityId, currencyUnitId := q.reportingCurrencyUnitId.getD q.unitId,
    mode := q.mode, filedCutoff := q.filedCutoff, capturedBefore := q.capturedBefore,
    batchIds := q.batchIds.insertionSort (· ≤ ·), captureIds := q.captureIds.insertionSort (· ≤ ·),
    filingEventIds := q.filingEventIds.insertionSort (· ≤ ·), mappingRevisionId := q.mappingRevisionId,
    normalizerRevision := q.normalizerRevision, authorityPolicyRevision := q.authorityPolicyRevision,
    additionalQualityFlagIds := q.additionalQualityFlagIds.insertionSort (· ≤ ·),
    auditedRequired := q.auditedRequired, allowReviewedEquivalent := q.allowReviewedEquivalent,
    originalHistoryComplete := q.originalHistoryComplete }

/-- The flags of the context of a selection. -/
def contextFlags : List String :=
  let q := i.selection.query
  flagIf (¬ validIds q.batchIds ∨ ¬ validIds q.captureIds ∨ ¬ validIds q.filingEventIds true ∨
      ¬ validIds q.additionalQualityFlagIds true) "input_identity_invalid" ++
    flagIf (i.concept ∉ q.concepts) "input_concept_mismatch" ++
    flagIf (i.period.id ≠ q.periodId) "input_period_mismatch" ++
    flagIf (i.unit.id ≠ q.unitId) "input_unit_mismatch" ++
    flagIf (currencyCode i.unit.unitKey = true ∧ q.reportingCurrencyUnitId.getD q.unitId ≠ i.unit.id)
      "input_reporting_currency_mismatch" ++
    flagIf (i.scope.id ≠ q.scopeId ∨ i.scope.issuerId ≠ q.issuerId ∨ i.scope.instrumentId ≠ q.instrumentId)
      "input_scope_mismatch" ++
    flagIf (¬ i.period.Valid) "input_period_invalid" ++
    flagIf (i.scope.valid t = false) "input_scope_invalid" ++
    flagIf (i.unit.valid = false) "input_unit_invalid"

/-- The selection names its evidence. -/
def SelectionEvidenceValid : Prop :=
  let s := i.selection
  validIds s.coverageIds ∧ validIds s.filingVersionIds ∧ s.filingVersionIds.length = 1 ∧
    validIds s.qualityFlagIds true ∧ validIds s.eventIds true ∧ s.eventIds ⊆ s.query.filingEventIds ∧
    isSha256 s.inputHash = true ∧ s.reportingBasis ∈ [some "us_gaap", some "ifrs"]

instance : Decidable i.SelectionEvidenceValid := inferInstanceAs (Decidable (_ ∧ _))

/-- The fact names where it was reported. -/
def ProvenanceValid (fact : SelectedFact) : Prop :=
  let q := i.selection.query
  t.webAddress (fact.sourceUrl.getD "") = true ∧ t.loads (fact.transformJson.getD "") ≠ none ∧
    validIds fact.resolutionIds ∧ validIds fact.observationIds ∧ fact.observationIds.length = 1 ∧
    validIds fact.captureIds ∧ fact.captureIds.length = 1 ∧ fact.captureIds ⊆ q.captureIds ∧
    (∃ accession ∈ fact.accession, t.accession accession = true) ∧
    (∃ filed ∈ fact.filedDate, filed ≤ dayOf q.capturedBefore ∧ ∀ cutoff ∈ q.filedCutoff, filed ≤ cutoff) ∧
    (∃ locator ∈ fact.sourceLocator, hasText locator = true) ∧
    fact.sourceHashes.length = 1 ∧ (∀ hash ∈ fact.sourceHashes, isSha256 hash = true) ∧
    (∃ tag ∈ fact.sourceTag, hasText tag = true) ∧ ∃ text ∈ fact.originalNumericText, hasText text = true

set_option synthInstance.maxSize 400 in
instance (fact : SelectedFact) : Decidable (i.ProvenanceValid t fact) := inferInstanceAs (Decidable (_ ∧ _))

/-- The flags of the fact of an input. -/
def factFlags (fact : SelectedFact) : List String :=
  fact.flags ++
    flagIf (∃ precision ∈ i.precision, ¬ (precision.observationIds ⊆ fact.observationIds ∧
      fact.observationIds ⊆ precision.observationIds)) "input_precision_mismatch" ++
    flagIf (¬ i.ProvenanceValid t fact) "input_provenance_invalid" ++
    flagIf (¬ ∃ value ∈ fact.value, value.isFinite = true) "input_value_invalid" ++
    flagIf (fact.status ≠ .observed) "input_fact_not_observed"

/-- Everything that does not fit. -/
def flags : List String :=
  sortedSet (i.selection.flags ++ i.contextFlags t ++
    flagIf (i.selection.usableForValuation = false) "input_selection_unusable" ++
    flagIf (¬ i.SelectionEvidenceValid) "input_selection_evidence_invalid" ++
    i.fact.elim ["input_fact_not_unique"] (i.factFlags t))

/-- The flags that block the use of the value. -/
def blockingFlags : List String := (i.flags t).filter fun flag => !nonblocking flag

/-- The value of the fact, unless a flag blocks it. -/
def value : Option Number := if i.blockingFlags t = [] then i.fact.bind (·.value) else none

variable {t i}

/-- A flag that is raised and blocks is a blocking flag. -/
theorem not_mem_of_blockingFlags (h : i.blockingFlags t = []) (flag : String) (hblocks : nonblocking flag = false) :
    flag ∉ i.flags t := by
  intro hflag
  have hmem : flag ∈ i.blockingFlags t := List.mem_filter.mpr ⟨hflag, by simp [hblocks]⟩
  rw [h] at hmem
  cases hmem

/-- An input without a blocking flag has a valid period. -/
theorem valid_of_blockingFlags (h : i.blockingFlags t = []) : i.period.Valid := by
  by_contra hinvalid
  refine not_mem_of_blockingFlags h "input_period_invalid" (by decide) ?_
  simp [flags, contextFlags, flagIf, hinvalid]

/-- An input without a blocking flag has a finite fact. -/
theorem finite_of_blockingFlags (h : i.blockingFlags t = []) : ∃ d, i.value t = some (.finite d) := by
  have hunique : i.fact ≠ none := by
    intro hnone
    refine not_mem_of_blockingFlags h "input_fact_not_unique" (by decide) ?_
    simp [flags, hnone]
  obtain ⟨fact, hfact⟩ := Option.ne_none_iff_exists'.mp hunique
  have hfinite : ∃ value ∈ fact.value, value.isFinite = true := by
    by_contra hinfinite
    refine not_mem_of_blockingFlags h "input_value_invalid" (by decide) ?_
    have hraised : "input_value_invalid" ∈ i.factFlags t fact := by
      rw [factFlags, flagIf, flagIf, flagIf, if_pos hinfinite]
      simp
    simp [flags, hfact, hraised]
  obtain ⟨value, hvalue, hdecimal⟩ := hfinite
  obtain ⟨d, hd⟩ := Option.isSome_iff_exists.mp hdecimal
  refine ⟨d, ?_⟩
  rw [FinancialInput.value, if_pos h, hfact, Option.bind_some, hvalue, Number.decimal?_eq_some.mp hd]

/-- A value is that of an input without a blocking flag. -/
theorem blockingFlags_of_value {n : Number} (h : i.value t = some n) : i.blockingFlags t = [] := by
  unfold value at h
  split at h
  · assumption
  · cases h

end FinancialInput

end EquityEval.Fundamentals
