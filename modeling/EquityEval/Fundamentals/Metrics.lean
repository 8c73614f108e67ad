import EquityEval.Fundamentals.Periods

/-!
# Source metrics

A metric is calculated from reported or assembled amounts, which it keeps. What keeps the amounts from
being combined is collected first; a result that is out of range is none. A calculation that raises
is nothing. An assembled amount may have been made by hand, so nothing is known of it.
-/

namespace EquityEval.Fundamentals

open Workflow DecimalArithmetic Gregorian PointInTime
open Discovery (sortedSet)

/-! ### Numbers -/

/-- `_context`. -/
def ratioContext : Context := ⟨50, .halfEven, -999, 999⟩

/-- A quotient of finite numbers; nothing where it raises. -/
def fraction (numerator denominator : Decimal) : Option Decimal :=
  ratioContext.div? { subnormal := true } numerator denominator

/-- A quotient, if it is finite; nothing where it raises. -/
def quotient : Number → Number → Option Decimal
  | .finite a, .finite b => fraction a b
  | .finite a, .infinite negative => some ⟨a.negative != negative, 0, ratioContext.etiny⟩
  | _, _ => none

/-- The signals of a context that loses no digits. -/
def exactTraps : Traps := { inexact := true, subnormal := true }

/-- `_difference`, if it is finite; nothing where it raises. -/
def difference (left right : Number) : Option Decimal := do
  let a ← left.decimal?
  let b ← right.decimal?
  ratioContext.sub? exactTraps a b

/-- `_average_balance`, if it is finite; nothing where it raises. -/
def averageBalance (left right : Number) : Option Decimal := do
  let a ← left.decimal?
  let b ← right.decimal?
  let sum ← ratioContext.add? exactTraps a b
  ratioContext.div? exactTraps sum (.ofInt 2)

/-- A number is no more than a decimal; comparing with what is not a number raises. -/
def atMost (bound : Decimal) : Number → Option Bool
  | .finite d => some (d ≤ bound)
  | .infinite negative => some negative
  | .nan _ _ _ => none

/-- A number is less than zero; comparing with what is not a number raises. -/
def isNegative : Number → Option Bool
  | .finite d => some (d < .ofInt 0)
  | .infinite negative => some negative
  | .nan _ _ _ => none

section Equality

variable (identical : Number → Number → Bool)

/-- Numbers compare by value, and an object is equal to itself. -/
def equalNumbers : Option Number → Option Number → Bool
  | none, none => true
  | some x, some y => identical x y ||
    match x, y with
    | .finite a, .finite b => decide (a.NumEq b)
    | .infinite negative, .infinite negative' => negative = negative'
    | _, _ => false
  | _, _ => false

/-- Uncertainties are equal in value and in their evidence. -/
def equalPrecisions : Option PrecisionEvidence → Option PrecisionEvidence → Bool
  | none, none => true
  | some x, some y => decide (x.absoluteError.NumEq y.absoluteError ∧ x.observationIds = y.observationIds ∧
      x.evidenceRefs = y.evidenceRefs ∧ x.method = y.method)
  | _, _ => false

/-- Assembled amounts are equal in every field. -/
def PeriodAmount.equals (a b : PeriodAmount) : Bool :=
  equalNumbers identical a.value b.value && equalPrecisions a.precision b.precision &&
    decide (a.operands = b.operands ∧ a.coefficients = b.coefficients ∧ a.period = b.period ∧ a.flags = b.flags ∧
      a.formulaId = b.formulaId ∧ a.formulaRevision = b.formulaRevision ∧
      a.revisionCompatibility = b.revisionCompatibility ∧ a.calendarEvidence = b.calendarEvidence)

end Equality

/-! ### Operands -/

/-- The text of a concept. -/
def conceptText : Concept → String
  | .revenue => "revenue"
  | .costOfRevenue => "cost_of_revenue"
  | .grossProfit => "gross_profit"
  | .researchAndDevelopmentExpense => "research_and_development_expense"
  | .sellingGeneralAndAdministrativeExpense => "selling_general_and_administrative_expense"
  | .operatingExpenses => "operating_expenses"
  | .operatingIncome => "operating_income"
  | .interestExpense => "interest_expense"
  | .pretaxIncome => "pretax_income"
  | .incomeTaxExpense => "income_tax_expense"
  | .netIncomeParent => "net_income_parent"
  | .netIncomeConsolidated => "net_income_consolidated"
  | .epsBasic => "eps_basic"
  | .epsDiluted => "eps_diluted"
  | .weightedAverageSharesBasic => "weighted_average_shares_basic"
  | .weightedAverageSharesDiluted => "weighted_average_shares_diluted"
  | .commonSharesOutstanding => "common_shares_outstanding"
  | .cashAndCashEquivalents => "cash_and_cash_equivalents"
  | .shortTermInvestments => "short_term_investments"
  | .accountsReceivableNet => "accounts_receivable_net"
  | .inventoryNet => "inventory_net"
  | .currentAssets => "current_assets"
  | .propertyPlantEquipmentNet => "property_plant_equipment_net"
  | .goodwill => "goodwill"
  | .intangibleAssetsNetExcludingGoodwill => "intangible_assets_net_excluding_goodwill"
  | .totalAssets => "total_assets"
  | .accountsPayableCurrent => "accounts_payable_current"
  | .currentDebt => "current_debt"
  | .longTermDebtNoncurrent => "long_term_debt_noncurrent"
  | .currentLiabilities => "current_liabilities"
  | .totalLiabilities => "total_liabilities"
  | .equityParent => "equity_parent"
  | .equityIncludingNoncontrollingInterests => "equity_including_noncontrolling_interests"
  | .noncontrollingInterests => "noncontrolling_interests"
  | .cashFromOperatingActivities => "cash_from_operating_activities"
  | .capitalExpendituresPpe => "capital_expenditures_ppe"
  | .depreciationAndAmortization => "depreciation_and_amortization"
  | .shareBasedCompensation => "share_based_compensation"
  | .dividendsPaid => "dividends_paid"
  | .shareRepurchases => "share_repurchases"

/-- What a metric is calculated from. -/
inductive Operand where
  | input (source : FinancialInput)
  | period (amount : PeriodAmount)
deriving DecidableEq

/-- What an amount shares with those that it is compared with. -/
inductive AssemblyKey where
  | selected (startDate : Option Date) (endDate : Date) (filingVersionIds : List Uuid)
  | assembled (formulaId formulaRevision : String) (calendar : Option CalendarKey)
      (sources : List (Option Date × Date × ℤ × List Uuid))
deriving DecidableEq

namespace Operand

/-- The reported amounts of an operand. -/
def leaves : Operand → List FinancialInput
  | input source => [source]
  | period amount => amount.operands

/-- The operand is a reported amount. -/
def isInput : Operand → Bool
  | input _ => true
  | period _ => false

/-- The value of an operand. -/
def value (t : Texts) : Operand → Option Number
  | input source => source.value t
  | period amount => amount.value

/-- The uncertainty of an operand. -/
def precision : Operand → Option PrecisionEvidence
  | input source => source.precision
  | period amount => amount.precision

/-- The flags of an operand. -/
def flags (t : Texts) : Operand → List String
  | input source => source.flags t
  | period amount => amount.flags

/-- The flags of an operand that block the use of its value. -/
def blockingFlags (t : Texts) (o : Operand) : List String := (o.flags t).filter fun flag => !nonblocking flag

/-- The concept of an operand; that of an amount of no sources raises. -/
def concept (o : Operand) : Option Concept := o.leaves.head?.map (·.concept)

/-- The unit of an operand; that of an amount of no sources raises. -/
def unitKey (o : Operand) : Option String := o.leaves.head?.map (·.unit.unitKey)

/-- The first day of an operand. -/
def startDate : Operand → Option Date
  | input source => source.period.startDate
  | period amount => amount.period.startDate

/-- The last day of an operand. -/
def endDate : Operand → Date
  | input source => source.period.endDate
  | period amount => amount.period.endDate

/-- The way an operand was selected or assembled. -/
def basis : Operand → String
  | input _ => "selected"
  | period amount => amount.formulaId

/-- `assembly_key`; nothing where the coefficients are not those of the sources. -/
def assemblyKey : Operand → Option AssemblyKey
  | input source => some (.selected source.period.startDate source.period.endDate source.selection.filingVersionIds)
  | period amount =>
    if amount.operands.length = amount.coefficients.length then
      some (.assembled amount.formulaId amount.formulaRevision (amount.calendarEvidence.map (·.comparisonKey))
        ((amount.operands.zip amount.coefficients).map fun (source, coefficient) =>
          (source.period.startDate, source.period.endDate, coefficient, source.selection.filingVersionIds.insertionSort (· ≤ ·))))
    else none

end Operand

/-- The issues of operands that are compared over one period. -/
def assemblyIssues (operands : List Operand) : Option (List String) := do
  let assemblies ← operands.mapM (·.assemblyKey)
  some (flagIf (Differ (fun o => (o.startDate, o.endDate)) operands) "incompatible_periods" ++
    flagIf (Differ id assemblies) "incompatible_period_assemblies")

/-- `_issues`; nothing where it raises. -/
def issues (t : Texts) (operands : List Operand) (expected : List Concept) (samePeriod : Bool) : Option (List String) :=
  let leaves := operands.flatMap (·.leaves)
  if ∀ o ∈ operands, o.isInput = true then some (sourceIssues t leaves expected samePeriod false)
  else do
    let concepts := (operands.zip expected).flatMap fun (o, concept) => List.replicate o.leaves.length concept
    let found ← operands.mapM (·.concept)
    let compared ← if samePeriod then assemblyIssues operands else some []
    some (sourceIssues t leaves concepts false false ++ operands.flatMap (·.blockingFlags t) ++
      flagIf (∃ o ∈ operands, o.value t = none) "source_input_unavailable" ++
      flagIf (found ≠ expected) "unexpected_concept" ++ compared)

/-- `_denominator`; nothing where it raises. -/
def denominatorIssues (t : Texts) (o : Operand) : Option (List String) :=
  match o.value t with
  | none => some ["source_input_unavailable"]
  | some value =>
    match atMost (.ofInt 0) value, o.precision with
    | none, _ => none
    | some true, _ => some ["denominator_nonpositive"]
    | some false, none => some ["denominator_precision_unknown"]
    | some false, some precision =>
      (atMost precision.absoluteError value).map fun indistinct =>
        flagIf (indistinct = true) "denominator_indistinguishable_from_zero"

/-! ### Calculations -/

/-- A metric with what it was calculated from; one of growth may have been reviewed with evidence. -/
structure Calculation where
  metricId : String
  value : Option Number
  unit : String
  operands : List Operand
  flags : List String := []
  formulaRevision : String := "s5-source-metrics-v1"
  review : Option (Option FiscalCalendarEvidence × Option RevisionCompatibility) := none
deriving DecidableEq

/-- Calculations are equal in every field and in their class. -/
def Calculation.equals (identical : Number → Number → Bool) (a b : Calculation) : Bool :=
  equalNumbers identical a.value b.value &&
    decide (a.metricId = b.metricId ∧ a.unit = b.unit ∧ a.operands = b.operands ∧ a.flags = b.flags ∧
      a.formulaRevision = b.formulaRevision ∧ a.review = b.review)

/-- A margin is above one in magnitude. -/
def ExtremeMargin (margin : Bool) (value : Option Decimal) : Prop :=
  margin = true ∧ ∃ d ∈ value, Decimal.ofInt 1 < { d with negative := false }

instance (margin : Bool) (value : Option Decimal) : Decidable (ExtremeMargin margin value) :=
  inferInstanceAs (Decidable (_ ∧ ∃ _ ∈ _, _))

/-- `_calculate`. -/
def calculate (t : Texts) (metric : String) (operands : List Operand) (found : List String)
    (operation : List Number → Option Decimal) (unit : String := "fraction") (margin : Bool := false)
    (extraFlags : List String := []) : Calculation :=
  let problems := found ++ flagIf (∃ o ∈ operands, o.value t = none) "source_input_unavailable"
  let value := if problems = [] then operation (operands.filterMap (·.value t)) else none
  { metricId := metric
    value := value.map .finite
    unit := unit
    operands := operands
    flags := sortedSet (operands.flatMap (·.flags t) ++ extraFlags ++ problems ++
      flagIf (problems = [] ∧ value = none) "unsupported_numeric_range" ++
      flagIf (ExtremeMargin margin value) "extreme_margin") }

/-- The first value by the second one. -/
def ratioOf : List Number → Option Decimal
  | [a, b] => quotient a b
  | _ => none

/-- The difference of two values. -/
def differenceOf : List Number → Option Decimal
  | [a, b] => difference a b
  | _ => none

/-- `_reported_margin`. -/
def reportedMargin (t : Texts) (metric : String) (concept : Concept) (numerator revenue : Operand) : Option Calculation := do
  let found ← issues t [numerator, revenue] [concept, .revenue] true
  let denominator ← denominatorIssues t revenue
  some (calculate t metric [numerator, revenue] (found ++ denominator) ratioOf "fraction" true)

/-- `operating_margin`. -/
def operatingMargin (t : Texts) (income revenue : Operand) : Option Calculation :=
  reportedMargin t "operating_margin" .operatingIncome income revenue

/-- `gross_margin`. -/
def grossMargin (t : Texts) (profit revenue : Operand) : Option Calculation :=
  reportedMargin t "gross_margin" .grossProfit profit revenue

/-- `net_margin`. -/
def netMargin (t : Texts) (income revenue : Operand) : Option Calculation :=
  reportedMargin t "net_margin_consolidated" .netIncomeConsolidated income revenue

/-- `derived_gross_margin`. -/
def derivedGrossMargin (t : Texts) (revenue cost : Operand) : Option Calculation := do
  let found ← issues t [revenue, cost] [.revenue, .costOfRevenue] true
  let denominator ← denominatorIssues t revenue
  some (calculate t "gross_margin_derived" [revenue, cost] (found ++ denominator)
    (fun values => do
      let profit ← differenceOf values
      quotient (.finite profit) (← values.head?))
    "fraction" true ["gross_profit_derived"])

/-- `_cash_issues`. -/
def cashIssues (t : Texts) (cfo capex : Operand) : Option (List String) := do
  let found ← issues t [cfo, capex] [.cashFromOperatingActivities, .capitalExpendituresPpe] true
  let negative ← (capex.value t).elim (some false) isNegative
  some (found ++ flagIf (negative = true) "negative_cash_ppe_capex")

/-- `free_cash_flow`. -/
def freeCashFlow (t : Texts) (cfo capex : Operand) : Option Calculation := do
  let found ← cashIssues t cfo capex
  let unit ← cfo.unitKey
  some (calculate t "free_cash_flow_ppe" [cfo, capex] found differenceOf unit)

/-- `free_cash_flow_margin`. -/
def freeCashFlowMargin (t : Texts) (cfo capex revenue : Operand) : Option Calculation := do
  let cash ← cashIssues t cfo capex
  let found ← issues t [cfo, capex, revenue] [.cashFromOperatingActivities, .capitalExpendituresPpe, .revenue] true
  let denominator ← denominatorIssues t revenue
  some (calculate t "free_cash_flow_margin_ppe" [cfo, capex, revenue] (cash ++ found ++ denominator)
    (fun values => do
      let cashFlow ← differenceOf (values.take 2)
      quotient (.finite cashFlow) (← values[2]?))
    "fraction" true)

/-- `_current_balance_issues`. -/
def currentBalanceIssues (t : Texts) (assets liabilities : FinancialInput) : List String :=
  sourceIssues t [assets, liabilities] [.currentAssets, .currentLiabilities] true true ++
    flagIf (∃ item ∈ [assets, liabilities], ∃ d ∈ (item.value t).bind (·.decimal?), d < .ofInt 0) "negative_current_balance"

/-- `current_ratio`. -/
def currentRatio (t : Texts) (assets liabilities : FinancialInput) : Option Calculation := do
  let denominator ← denominatorIssues t (.input liabilities)
  some (calculate t "current_ratio" [.input assets, .input liabilities]
    (currentBalanceIssues t assets liabilities ++ denominator) ratioOf "multiple")

/-- `net_working_capital`. -/
def netWorkingCapital (t : Texts) (assets liabilities : FinancialInput) : Calculation :=
  calculate t "net_working_capital" [.input assets, .input liabilities] (currentBalanceIssues t assets liabilities)
    differenceOf assets.unit.unitKey

/-- `return_on_assets`. -/
def returnOnAssets (t : Texts) (income openingAssets closingAssets : FinancialInput) : Option Calculation := do
  let operands := [income, openingAssets, closingAssets]
  let opening ← denominatorIssues t (.input openingAssets)
  let closing ← denominatorIssues t (.input closingAssets)
  some (calculate t "return_on_assets" (operands.map .input)
    (selectionIssues t operands [.netIncomeConsolidated, .totalAssets, .totalAssets] ++
      (Operand.period (annualAmount t income none)).blockingFlags t ++
      sourceIssues t [openingAssets, closingAssets] [.totalAssets, .totalAssets] false true ++ opening ++ closing ++
      flagIf (Differ (fun item => sortedSet item.selection.filingVersionIds) operands) "incompatible_filing_editions" ++
      flagIf (¬ Follows openingAssets income ∨ closingAssets.period.endDate ≠ income.period.endDate)
        "incompatible_balance_dates")
    fun
      | [earned, first, last] => do quotient earned (.finite (← averageBalance first last))
      | _ => none)

/-- `reported_amount`. -/
def reportedAmount (t : Texts) (source : Operand) : Option Calculation := do
  let concept ← source.concept
  let unit ← source.unitKey
  some
    { metricId := "reported." ++ conceptText concept
      value := source.value t
      unit := unit
      operands := [source]
      flags := sortedSet (source.flags t ++ flagIf (source.value t = none) "source_input_unavailable") }

/-- `_comparison_period`. -/
def ComparisonPeriod (current prior : Operand) : Prop :=
  ∃ start ∈ current.startDate, ∃ oldStart ∈ prior.startDate,
    1 < start.year ∧ start.day = 1 ∧ Date.months start current.endDate ∈ [3, 12] ∧ current.endDate.monthEnd ∧
      (Date.months start current.endDate = 3 → start.month ∈ [1, 4, 7, 10]) ∧
      (oldStart.year + 1 = start.year ∧ oldStart.month = start.month ∧ oldStart.day = 1) ∧
      prior.endDate.year + 1 = current.endDate.year ∧ prior.endDate.month = current.endDate.month ∧ prior.endDate.monthEnd

instance (current prior : Operand) : Decidable (ComparisonPeriod current prior) :=
  inferInstanceAs (Decidable (∃ _ ∈ _, ∃ _ ∈ _, _))

/-- The periods of two operands are comparable. -/
def comparableOperands (calendar : Option FiscalCalendarEvidence) (current prior : Operand) : Bool :=
  match calendar, current, prior with
  | none, _, _ => ComparisonPeriod current prior
  | some calendar, .input current, .input prior => calendar.comparable current prior
  | some _, _, _ => false

/-- `revenue_growth`. -/
def revenueGrowth (t : Texts) (current prior : Operand) (calendar : Option FiscalCalendarEvidence)
    (revision : Option RevisionCompatibility) : Option Calculation := do
  let found ← issues t [current, prior] [.revenue, .revenue] false
  let denominator ← denominatorIssues t prior
  let leaves := current.leaves ++ prior.leaves
  let calculation := calculate t "revenue_growth_yoy" [current, prior]
    (found ++ denominator ++ revisionProblems leaves revision ++
      flagIf (current.basis ≠ prior.basis) "incompatible_comparison_basis" ++ calendarProblems calendar leaves ++
      flagIf (comparableOperands calendar current prior = false) "unsupported_comparison_periods")
    (fun values => do
      let change ← differenceOf values
      quotient (.finite change) (← values[1]?))
  some { calculation with review := if calendar = none ∧ revision = none then none else some (calendar, revision) }

end EquityEval.Fundamentals
