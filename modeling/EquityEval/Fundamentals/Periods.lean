import EquityEval.Fundamentals.Fiscal

/-!
# Amounts of assembled periods

The amount of a period is a reported one, or a sum and difference of reported ones whose periods
make it up. Sums are exact: a sum that a context cannot hold is none. An amount keeps every selection
that it was assembled from.
-/

namespace EquityEval.Fundamentals

open Workflow DecimalArithmetic Gregorian PointInTime
open Discovery (sortedSet)
open Vintage (hasText)

/-- A review that finds the selections of different filings comparable. -/
structure RevisionCompatibility where
  inputHashes : List String
  evidenceRefs : List String
  reviewRevision : String
  named : NamesInputs inputHashes
  cited : Cited evidenceRefs reviewRevision

instance : DecidableEq RevisionCompatibility := fun a b =>
  decidable_of_iff (a.inputHashes = b.inputHashes ∧ a.evidenceRefs = b.evidenceRefs ∧ a.reviewRevision = b.reviewRevision)
    (by cases a; cases b; simp)

/-- The days that an amount is about. -/
structure PeriodWindow where
  startDate : Option Date
  endDate : Date
  periodKind : String := "duration"
deriving DecidableEq

/-- A derived amount with every original selection. -/
structure PeriodAmount where
  value : Option Number
  operands : List FinancialInput
  coefficients : List ℤ
  period : PeriodWindow
  precision : Option PrecisionEvidence
  flags : List String
  formulaId : String
  formulaRevision : String := "s5-period-amounts-v1"
  revisionCompatibility : Option RevisionCompatibility := none
  calendarEvidence : Option FiscalCalendarEvidence := none
deriving DecidableEq

/-- The concepts whose amounts may be assembled. -/
def supportedFlows : List Concept :=
  [.revenue, .costOfRevenue, .grossProfit, .operatingIncome, .netIncomeConsolidated, .cashFromOperatingActivities,
    .capitalExpendituresPpe]

/-- The number of calendar months of a source that spans whole ones. -/
def monthSpan (source : FinancialInput) : Option ℤ := do
  let start ← source.period.startDate
  if source.period.periodKind = .duration ∧ start ≤ source.period.endDate ∧ start.day = 1 ∧ source.period.endDate.monthEnd then
    some (Date.months start source.period.endDate)
  else none

/-- The source reports a negative payment for property, plant and equipment. -/
def NegativeCapex (concept : Concept) (value : Option Number) : Prop :=
  concept = .capitalExpendituresPpe ∧ ∃ number ∈ value, ∃ d ∈ number.decimal?, d.signed < 0

instance (concept : Concept) (value : Option Number) : Decidable (NegativeCapex concept value) :=
  inferInstanceAs (Decidable (_ ∧ _))

/-- What keeps some sources from being assembled, whatever their periods. -/
def periodProblems (t : Texts) (operands : List FinancialInput) : List String :=
  let observationIds := operands.flatMap fun source => source.fact.elim [] (·.observationIds)
  sourceIssues t operands ((operands.head?.map (·.concept)).elim [] (List.replicate operands.length)) false false ++
    flagIf (∃ source ∈ operands, source.concept ∉ supportedFlows) "unsupported_period_concept" ++
    flagIf (∃ source ∈ operands, NegativeCapex source.concept (source.value t)) "negative_cash_ppe_capex" ++
    flagIf (Differ (fun item => (item.scope.id, item.scope.contentSha256)) operands) "incompatible_period_scope" ++
    flagIf (¬ observationIds.Nodup) "duplicate_period_observation"

/-- The source reports a whole year. -/
def Annual (source : FinancialInput) : Option FiscalCalendarEvidence → Prop
  | some calendar => ∃ label ∈ calendar.matchOf source true, label.2 = 4
  | none => monthSpan source = some 12

instance (source : FinancialInput) (calendar : Option FiscalCalendarEvidence) : Decidable (Annual source calendar) := by
  cases calendar <;> unfold Annual <;> infer_instance

/-- The problems of a calendar, if there is one. -/
def calendarProblems (calendar : Option FiscalCalendarEvidence) (sources : List FinancialInput) : List String :=
  calendar.elim [] (·.problems sources)

/-- `annual_amount`. -/
def annualAmount (t : Texts) (source : FinancialInput) (calendar : Option FiscalCalendarEvidence) : PeriodAmount :=
  let problems := periodProblems t [source] ++ calendarProblems calendar [source] ++
    flagIf (¬ Annual source calendar) "unsupported_annual_period"
  { value := if problems = [] then source.value t else none
    operands := [source]
    coefficients := [1]
    period := { startDate := source.period.startDate, endDate := source.period.endDate }
    precision := source.precision
    flags := sortedSet (source.flags t ++ problems)
    formulaId := "direct_annual"
    calendarEvidence := calendar }

/-! ### Exact sums -/

/-- The number is within the range that sums are computed in. -/
def Summable (d : Decimal) : Prop := d.digits ≤ 1000 ∧ d.exponent.natAbs ≤ 1000 ∧ d.adjusted.natAbs ≤ 1000

instance (d : Decimal) : Decidable (Summable d) := inferInstanceAs (Decidable (_ ∧ _))

/-- The context that holds a sum of numbers between two exponents. -/
def sumContext (top bottom : ℤ) : Context := ⟨(max 50 (top - bottom + 4)).toNat, .halfEven, -9999, 9999⟩

/-- `_exact_sum`; no sum where it raises. -/
def exactSum (numbers : List Number) (coefficients : List ℤ) : Option Decimal :=
  let values := numbers.filterMap (·.decimal?)
  if (∀ number ∈ numbers, number.isFinite = true) ∧ (∀ value ∈ values, Summable value) ∧ values.length = coefficients.length then do
    let top ← (values.map (·.adjusted)).max?
    let bottom ← (values.map (·.exponent)).min?
    (values.zipWith (fun value (coefficient : ℤ) => if coefficient = 1 then value else value.copyNegate) coefficients).foldlM
      ((sumContext top bottom).add? { inexact := true }) (.ofInt 0)
  else none

/-- The evidence of an uncertainty, unless it is refused. -/
def PrecisionEvidence.build (absoluteError : Decimal) (observationIds : List Uuid) (evidenceRefs : List String)
    (method : String) : Option PrecisionEvidence :=
  if h : 0 ≤ absoluteError.signed ∧ validIds observationIds ∧
      (evidenceRefs ≠ [] ∧ (∀ ref ∈ evidenceRefs, hasText ref = true) ∧ hasText method = true) then
    some ⟨absoluteError, observationIds, evidenceRefs, method, h.1, h.2.1, h.2.2⟩
  else none

/-- The exact sum of sources, with the sum of their uncertainties if each has one. -/
def combine (t : Texts) (sources : List FinancialInput) (coefficients : List ℤ) :
    Option (Decimal × Option PrecisionEvidence) := do
  let value ← exactSum (sources.filterMap (·.value t)) coefficients
  let precisions := sources.filterMap (·.precision)
  if precisions.length = sources.length then do
    let absoluteError ← exactSum (precisions.map fun item => .finite item.absoluteError) (precisions.map fun _ => 1)
    let precision ← PrecisionEvidence.build absoluteError (sortedSet (precisions.flatMap (·.observationIds)))
      (sortedSet (precisions.flatMap (·.evidenceRefs))) "sum_absolute_errors:s5-period-amounts-v1"
    some (value, some precision)
  else some (value, none)

/-- `_assemble`. -/
def assemble (t : Texts) (sources : List FinancialInput) (coefficients : List ℤ) (window : PeriodWindow) (formula : String)
    (problems : List String) (revision : Option RevisionCompatibility) (calendar : Option FiscalCalendarEvidence) :
    PeriodAmount :=
  let combined := if problems = [] then combine t sources coefficients else none
  let value := combined.map fun result => Number.finite result.1
  let negative := ∃ first ∈ sources.head?, NegativeCapex first.concept value
  { value := if negative then none else value
    operands := sources
    coefficients := coefficients
    period := window
    precision := combined.bind (·.2)
    flags := sortedSet (problems ++ sources.flatMap (·.flags t) ++
      flagIf (problems = [] ∧ combined = none) "unsupported_numeric_range" ++ flagIf negative "negative_cash_ppe_capex")
    formulaId := formula
    revisionCompatibility := revision
    calendarEvidence := calendar }

/-! ### Assembled periods -/

/-- `_revision_problems`. -/
def revisionProblems (sources : List FinancialInput) : Option RevisionCompatibility → List String
  | some proof =>
    let hashes := sources.map (·.selection.inputHash)
    flagIf (¬ (proof.inputHashes ⊆ hashes ∧ hashes ⊆ proof.inputHashes)) "revision_compatibility_mismatch"
  | none => flagIf (Differ (·.selection.filingVersionIds) sources) "revision_compatibility_unproven"

/-- The source reports a quarter. -/
def Quarter (source : FinancialInput) : Option FiscalCalendarEvidence → Prop
  | some calendar => calendar.matchOf source false ≠ none
  | none => monthSpan source = some 3 ∧ ∃ start ∈ source.period.startDate, start.month ∈ [1, 4, 7, 10]

instance (source : FinancialInput) (calendar : Option FiscalCalendarEvidence) : Decidable (Quarter source calendar) := by
  cases calendar <;> unfold Quarter <;> infer_instance

/-- A source starts on the day after another one ends. -/
def Follows (earlier later : FinancialInput) : Prop :=
  ∃ start ∈ later.period.startDate, earlier.period.endDate.toOrdinal + 1 = start.toOrdinal

instance (earlier later : FinancialInput) : Decidable (Follows earlier later) :=
  inferInstanceAs (Decidable (∃ _ ∈ _, _))

/-- `ttm_from_quarters`; nothing where it raises. -/
def ttmFromQuarters (t : Texts) (sources : List FinancialInput) (revision : Option RevisionCompatibility)
    (calendar : Option FiscalCalendarEvidence) : Option PeriodAmount := do
  let first ← sources.head?
  let last ← sources.getLast?
  let problems := periodProblems t sources ++ revisionProblems sources revision ++
    flagIf (sources.length ≠ 4) "four_quarters_required" ++ calendarProblems calendar sources ++
    flagIf (∃ source ∈ sources, ¬ Quarter source calendar) "unsupported_quarter_period"
  some (assemble t sources (sources.map fun _ => 1) { startDate := first.period.startDate, endDate := last.period.endDate }
    "sum_four_quarters" (problems ++ flagIf (problems = [] ∧ ¬ sources.IsChain Follows) "noncontiguous_quarters")
    revision calendar)

/-- Two sources from the start of a year differ by a quarter. -/
def YearToDate (current prior : FinancialInput) : Option FiscalCalendarEvidence → Prop
  | some calendar => ∃ c ∈ calendar.matchOf current true, ∃ p ∈ calendar.matchOf prior true, c.1 = p.1 ∧ c.2 = p.2 + 1
  | none => ∃ c ∈ monthSpan current, ∃ p ∈ monthSpan prior, c ∈ [6, 9, 12] ∧ p ∈ [3, 6, 9] ∧ c - p = 3 ∧
      current.period.startDate = prior.period.startDate

instance (current prior : FinancialInput) (calendar : Option FiscalCalendarEvidence) :
    Decidable (YearToDate current prior calendar) := by
  cases calendar <;> unfold YearToDate <;> infer_instance

/-- The first day of a window that starts after a source, if the window is valid. -/
def startAfter (valid : Prop) [Decidable valid] (source : FinancialInput) : Option (Option Date) :=
  if valid then source.period.endDate.addDay.map some else some none

/-- `quarter_from_ytd`; nothing where it raises. -/
def quarterFromYtd (t : Texts) (current prior : FinancialInput) (calendar : Option FiscalCalendarEvidence) :
    Option PeriodAmount := do
  let sources := [current, prior]
  let start ← startAfter (YearToDate current prior calendar) prior
  some (assemble t sources [1, -1] { startDate := start, endDate := current.period.endDate } "ytd_difference"
    (periodProblems t sources ++ calendarProblems calendar sources ++
      flagIf (¬ YearToDate current prior calendar) "incompatible_ytd_periods" ++
      flagIf (current.selection.filingVersionIds ≠ prior.selection.filingVersionIds) "incompatible_filing_editions")
    none calendar)

/-- A whole year, the start of the next one, and the same part of the year itself. -/
def AnnualBridge (annual current prior : FinancialInput) : Option FiscalCalendarEvidence → Prop
  | some calendar => ∃ a ∈ calendar.matchOf annual true, ∃ c ∈ calendar.matchOf current true,
      ∃ p ∈ calendar.matchOf prior true, a.2 = 4 ∧ a.1 = p.1 ∧ c.1 = a.1 + 1 ∧ c.2 = p.2 ∧ c.2 ∈ [1, 2, 3] ∧
        Follows annual current
  | none => monthSpan annual = some 12 ∧ (∃ c ∈ monthSpan current, c ∈ [3, 6, 9] ∧ monthSpan prior = some c) ∧
      prior.period.startDate = annual.period.startDate ∧
      ∃ next ∈ annual.period.endDate.addDay, current.period.startDate = some next

instance (annual current prior : FinancialInput) (calendar : Option FiscalCalendarEvidence) :
    Decidable (AnnualBridge annual current prior calendar) := by
  cases calendar <;> unfold AnnualBridge <;> infer_instance

/-- `ttm_from_annual_ytd`; nothing where it raises. -/
def ttmFromAnnualYtd (t : Texts) (annual current prior : FinancialInput) (revision : Option RevisionCompatibility)
    (calendar : Option FiscalCalendarEvidence) : Option PeriodAmount := do
  let sources := [annual, current, prior]
  let start ← startAfter (AnnualBridge annual current prior calendar) prior
  some (assemble t sources [1, 1, -1] { startDate := start, endDate := current.period.endDate } "annual_ytd_bridge"
    (periodProblems t sources ++ revisionProblems sources revision ++ calendarProblems calendar sources ++
      flagIf (¬ AnnualBridge annual current prior calendar) "incompatible_annual_ytd_periods")
    revision calendar)

end EquityEval.Fundamentals
