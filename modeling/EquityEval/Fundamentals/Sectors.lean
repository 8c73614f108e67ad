import EquityEval.Fundamentals.Companies
import EquityEval.Fundamentals.History

/-!
# Sector metrics

A sector metric aggregates the snapshots of the issuers of a roster. Each issuer has one snapshot or
is rejected; a snapshot whose evidence has issues, or whose own metric does not count where the method
needs it, is excluded with its reasons. Two numbers that are one object are equal even if they are not
numbers, so which numbers are one object is a parameter.
-/

namespace EquityEval.Fundamentals

open DecimalArithmetic Gregorian
open Discovery (sortedSet)
open Vintage (hasText)

/-! ### Snapshots and rosters -/

/-- The metrics of a sector. -/
inductive MetricId where
  | pe
  | ps
  | pfcf
  | revenueYoy
  | operatingMargin
  | fcfMargin
  | growthBreadth
  | profitBreadth
  | cashBreadth
deriving DecidableEq, Repr

/-- The text of a metric. -/
def MetricId.text : MetricId → String
  | pe => "pe"
  | ps => "ps"
  | pfcf => "pfcf"
  | revenueYoy => "revenue_yoy"
  | operatingMargin => "operating_margin"
  | fcfMargin => "fcf_margin"
  | growthBreadth => "growth_breadth"
  | profitBreadth => "profit_breadth"
  | cashBreadth => "cash_breadth"

/-- How a metric is aggregated. -/
inductive Method where
  | total
  | median
  | mean
deriving DecidableEq, Repr

/-- The text of a method. -/
def Method.text : Method → String
  | total => "total"
  | median => "median"
  | mean => "mean"

/-- What has been evaluated of a company. -/
structure CompanySnapshot where
  issuerId : String
  snapshotId : String
  contextKey : String
  applicableMetrics : List String
  marketCap : EvidenceValue
  priorMarketCap : EvidenceValue
  commonIncome : EvidenceValue
  revenue : EvidenceValue
  priorRevenue : EvidenceValue
  operatingIncome : EvidenceValue
  fcf : EvidenceValue
  companyMetrics : List CompanyMetric

/-- The declared issuers of a sector. -/
structure SectorRoster where
  issuerIds : List String
  contextKey : String
  complete : Bool
  evaluationDate : Date
  inputHash : String
  lineageRefs : List String
  priorEvaluationDate : Option Date := none
  identified : (∀ issuer ∈ issuerIds, hasText issuer = true) ∧ hasText contextKey = true ∧ hasText inputHash = true
  evidenced : lineageRefs ≠ [] ∧ ∀ ref ∈ lineageRefs, hasText ref = true
  earlier : ∀ prior ∈ priorEvaluationDate, prior < evaluationDate

/-- When metrics of sectors may be compared. -/
structure SectorPolicy where
  minimumContributors : ℕ
  minimumIssuerCoverage : Decimal
  minimumCapCoverage : Decimal
  revision : String
  positive : 1 ≤ minimumContributors
  fractions : (.ofInt 0 ≤ minimumIssuerCoverage ∧ minimumIssuerCoverage ≤ .ofInt 1) ∧
    .ofInt 0 ≤ minimumCapCoverage ∧ minimumCapCoverage ≤ .ofInt 1
  named : hasText revision = true

/-- An issuer that does not count. -/
structure IssuerExclusion where
  issuerId : String
  reasons : List String
deriving DecidableEq

/-- The metric of a company that counts. -/
structure CompanyObservation where
  issuerId : String
  snapshotId : String
  value : Decimal
  inputHash : String
deriving DecidableEq

/-! ### Arithmetic -/

/-- `_sum`; no sum where it raises. -/
def sumOf (values : List Number) : Option Decimal :=
  if values = [] then some (.ofInt 0) else exactSum values (values.map fun _ => 1)

/-! ### Equal snapshots -/

section Equality

variable (identical : Number → Number → Bool)

/-- Equality of evidence. -/
def EvidenceValue.equals (a b : EvidenceValue) : Bool :=
  equalNumbers identical a.value b.value && equalNumbers identical a.absoluteError b.absoluteError &&
    decide (a.inputHash = b.inputHash ∧ a.periodStart = b.periodStart ∧ a.periodEnd = b.periodEnd ∧ a.usable = b.usable ∧
      a.flags = b.flags ∧ a.currency = b.currency ∧ a.basis = b.basis)

/-- Equality of metrics. -/
def CompanyMetric.equals (a b : CompanyMetric) : Bool :=
  equalNumbers identical a.value b.value &&
    decide (a.metricId = b.metricId ∧ a.inputHash = b.inputHash ∧ a.operandHashes = b.operandHashes ∧ a.usable = b.usable ∧
      a.flags = b.flags)

/-- Equality of snapshots. -/
def CompanySnapshot.equals (a b : CompanySnapshot) : Bool :=
  decide (a.issuerId = b.issuerId ∧ a.snapshotId = b.snapshotId ∧ a.contextKey = b.contextKey ∧
    a.applicableMetrics = b.applicableMetrics ∧ a.companyMetrics.length = b.companyMetrics.length) &&
    a.marketCap.equals identical b.marketCap && a.priorMarketCap.equals identical b.priorMarketCap &&
    a.commonIncome.equals identical b.commonIncome && a.revenue.equals identical b.revenue &&
    a.priorRevenue.equals identical b.priorRevenue && a.operatingIncome.equals identical b.operatingIncome &&
    a.fcf.equals identical b.fcf &&
    (a.companyMetrics.zip b.companyMetrics).all fun pair => pair.1.equals identical pair.2

/-! ### Selection -/

/-- The snapshot of an issuer, or why there is none. -/
def selectCompany (roster : SectorRoster) (companies : List CompanySnapshot) (issuer : String) :
    Except (List String) CompanySnapshot :=
  match companies.filter fun c => c.issuerId = issuer with
  | [] => .error ["company_snapshot_missing"]
  | first :: rest =>
    if ∃ c ∈ rest, c.equals identical first = false then .error ["conflicting_issuer_snapshots"]
    else if first.snapshotId = "" ∨ first.contextKey ≠ roster.contextKey then .error ["company_context_mismatch"]
    else .ok first

/-- `set(roster.issuer_ids)`, in order. -/
def SectorRoster.issuers (roster : SectorRoster) : List String := sortedSet roster.issuerIds

/-- The selected snapshots of `_companies`. -/
def selectedCompanies (roster : SectorRoster) (companies : List CompanySnapshot) : List (String × CompanySnapshot) :=
  roster.issuers.filterMap fun issuer => match selectCompany identical roster companies issuer with
    | .ok company => some (issuer, company)
    | .error _ => none

/-- The rejected issuers of `_companies`. -/
def rejectedIssuers (roster : SectorRoster) (companies : List CompanySnapshot) : List (String × List String) :=
  roster.issuers.filterMap fun issuer => match selectCompany identical roster companies issuer with
    | .ok _ => none
    | .error reasons => some (issuer, reasons)

end Equality

/-- The evidence of a snapshot that a metric may be about. -/
inductive Field where
  | marketCap
  | commonIncome
  | revenue
  | priorRevenue
  | operatingIncome
  | fcf
deriving DecidableEq, Repr

/-- The name of a field. -/
def Field.text : Field → String
  | marketCap => "market_cap"
  | commonIncome => "common_income"
  | revenue => "revenue"
  | priorRevenue => "prior_revenue"
  | operatingIncome => "operating_income"
  | fcf => "fcf"

/-- `getattr(company, field)`. -/
def CompanySnapshot.get (company : CompanySnapshot) : Field → EvidenceValue
  | .marketCap => company.marketCap
  | .commonIncome => company.commonIncome
  | .revenue => company.revenue
  | .priorRevenue => company.priorRevenue
  | .operatingIncome => company.operatingIncome
  | .fcf => company.fcf

/-- The finite value of a field, if it has one. -/
def CompanySnapshot.decimal? (company : CompanySnapshot) (field : Field) : Option Decimal :=
  (company.get field).value.bind (·.decimal?)

/-- `_cap` on the evaluation date. -/
def capOf (company : CompanySnapshot) (roster : SectorRoster) : Option Decimal :=
  if evidenceIssues company.marketCap "common_equity" roster.evaluationDate true false = [] then
    (company.decimal? .marketCap).filter fun cap => .ofInt 0 < cap
  else none

/-- The evidence of a metric, and the metric of a company that it aggregates. -/
structure MetricSpec where
  fields : List Field
  numerator : Option Field
  denominator : Option Field
  companyMetric : Option MetricId

/-- A metric of two fields. -/
def pairSpec (numerator denominator : Field) (companyMetric : MetricId) : MetricSpec :=
  ⟨[numerator, denominator], some numerator, some denominator, some companyMetric⟩

/-- `_spec`. -/
def MetricId.spec : MetricId → MetricSpec
  | pe => pairSpec .marketCap .commonIncome .pe
  | ps => pairSpec .marketCap .revenue .ps
  | pfcf => pairSpec .marketCap .fcf .pfcf
  | operatingMargin => pairSpec .operatingIncome .revenue .operatingMargin
  | fcfMargin => pairSpec .fcf .revenue .fcfMargin
  | revenueYoy => pairSpec .revenue .priorRevenue .revenueYoy
  | growthBreadth => pairSpec .revenue .priorRevenue .revenueYoy
  | profitBreadth => ⟨[.commonIncome], none, none, none⟩
  | cashBreadth => ⟨[.fcf], none, none, none⟩

/-- `_basis`. -/
def Field.basis : Field → String
  | marketCap => "common_equity"
  | commonIncome => "income_available_common"
  | fcf => "cash_ppe_fcf"
  | _ => "consolidated_flow"

/-- The metric is about growth. -/
def MetricId.Growth (metric : MetricId) : Prop := metric = .revenueYoy ∨ metric = .growthBreadth

/-- The metric is about how many companies there are of a kind. -/
def MetricId.Breadth (metric : MetricId) : Prop := metric = .profitBreadth ∨ metric = .cashBreadth ∨ metric = .growthBreadth

/-- The metric is a multiple of a company's price. -/
def MetricId.Multiple (metric : MetricId) : Prop := metric = .pe ∨ metric = .ps ∨ metric = .pfcf

/-- The metric is a margin. -/
def MetricId.Margin (metric : MetricId) : Prop := metric = .operatingMargin ∨ metric = .fcfMargin

instance (metric : MetricId) : Decidable metric.Growth := inferInstanceAs (Decidable (_ ∨ _))

instance (metric : MetricId) : Decidable metric.Breadth := inferInstanceAs (Decidable (_ ∨ _))

instance (metric : MetricId) : Decidable metric.Multiple := inferInstanceAs (Decidable (_ ∨ _))

instance (metric : MetricId) : Decidable metric.Margin := inferInstanceAs (Decidable (_ ∨ _))

/-! ### One company -/

/-- The issues of a field after those found before it. -/
def fieldIssues (company : CompanySnapshot) (roster : SectorRoster) (spec : MetricSpec) (issues : List String)
    (field : Field) : List String :=
  let found := issues ++ evidenceIssues (company.get field) field.basis roster.evaluationDate (field = .marketCap)
    (some field = spec.denominator)
  found ++ flagIf (field = .marketCap ∧ found = [] ∧ ∃ cap ∈ company.decimal? field, cap ≤ .ofInt 0) "market_cap_nonpositive"

/-- `_input_issues`. -/
def inputIssues (company : CompanySnapshot) (roster : SectorRoster) (metric : MetricId) (spec : MetricSpec) : List String :=
  let unsupported := flagIf (metric.text ∉ company.applicableMetrics) "unsupported_profile"
  let flows := (spec.fields.filter fun f => f ≠ .marketCap ∧ f ≠ .priorRevenue).map company.get
  sortedSet (spec.fields.foldl (fieldIssues company roster spec) unsupported ++
    flagIf (∃ a ∈ flows, ∃ b ∈ flows, (a.periodStart, a.periodEnd) ≠ (b.periodStart, b.periodEnd)) "incompatible_periods")

/-- `_company_metric`. -/
def companyMetric (company : CompanySnapshot) (metric : MetricId) (fields : List Field) :
    Except (List String) CompanyObservation :=
  match company.companyMetrics.filter fun m => m.metricId = metric.text with
  | [result] =>
    if result.operandHashes ≠ fields.map fun f => (company.get f).inputHash then .error ["company_metric_input_mismatch"]
    else
      let available := result.usable = true ∧ (∃ d ∈ result.value.bind (·.decimal?), WithinNumericLimits d) ∧
        isDigest result.inputHash = true
      let reasons := sortedSet (result.flags.filter (· ∉ informational) ++ flagIf (¬ available) "company_metric_unavailable")
      match result.value.bind (·.decimal?) with
      | none => .error reasons
      | some value =>
        let nonpositive := flagIf (reasons = [] ∧ metric.Multiple ∧ value ≤ .ofInt 0) "company_multiple_nonpositive"
        if reasons ++ nonpositive = [] then .ok ⟨company.issuerId, company.snapshotId, value, result.inputHash⟩
        else .error (reasons ++ nonpositive)
  | _ => .error ["company_metric_not_unique"]

/-- The metric of a company that a metric aggregates, if it does, or why it does not count. -/
def observe (company : CompanySnapshot) (spec : MetricSpec) : Option (Except (List String) CompanyObservation) :=
  spec.companyMetric.map fun metric =>
    if ∃ field ∈ spec.denominator, ∃ d ∈ company.decimal? field, d ≤ .ofInt 0 then .error ["company_denominator_nonpositive"]
    else if ∃ field ∈ spec.denominator, ∃ d ∈ company.decimal? field,
        ∃ e ∈ (company.get field).absoluteError.bind (·.decimal?), d ≤ e then
      .error ["company_denominator_indistinguishable_from_zero"]
    else companyMetric company metric spec.fields

/-- The field whose sign is counted. -/
def MetricSpec.signField (spec : MetricSpec) (metric : MetricId) : Option Field :=
  if metric.Margin then spec.numerator else spec.denominator.or spec.fields.head?

/-- What the sign that is counted is of. -/
def MetricSpec.signBasis (spec : MetricSpec) (metric : MetricId) : Option String :=
  if metric.Growth then some "revenue_yoy" else (spec.signField metric).map Field.text

/-! ### The roster -/

/-- A dictionary with a key set. -/
def setItem {α : Type} (items : List (String × α)) (key : String) (value : α) : List (String × α) :=
  if key ∈ items.map (·.1) then items.map fun item => if item.1 = key then (key, value) else item else items ++ [(key, value)]

/-- What has been found of the companies so far. -/
structure Tally where
  complete : List (String × CompanySnapshot) := []
  contributions : List (String × CompanySnapshot) := []
  excluded : List (String × List String)
  distributionExcluded : List (String × List String)
  distribution : List CompanyObservation := []
  flags : List String := []
  positive : ℕ := 0
  zero : ℕ := 0
  negative : ℕ := 0
  zeroDenominators : ℕ := 0

namespace Tally

/-- A sign is counted. -/
def count (t : Tally) (value : Decimal) : Tally :=
  { t with
    positive := t.positive + if .ofInt 0 < value then 1 else 0
    zero := t.zero + if value.NumEq (.ofInt 0) then 1 else 0
    negative := t.negative + if value < .ofInt 0 then 1 else 0 }

/-- A company is excluded for its inputs. -/
def exclude (t : Tally) (issuer : String) (issues : List String) : Tally :=
  { t with
    excluded := setItem t.excluded issuer issues
    distributionExcluded := setItem t.distributionExcluded issuer issues }

/-- A company is eligible. -/
def accept (t : Tally) (spec : MetricSpec) (issuer : String) (company : CompanySnapshot) : Tally :=
  { t with
    complete := t.complete ++ [(issuer, company)]
    flags := t.flags ++ spec.fields.flatMap fun f => (company.get f).flags.filter (· ∈ informational)
    zeroDenominators := t.zeroDenominators +
      if ∃ field ∈ spec.denominator, ∃ d ∈ company.decimal? field, d.NumEq (.ofInt 0) then 1 else 0 }

/-- A company contributes. -/
def contribute (t : Tally) (issuer : String) (company : CompanySnapshot) : Tally :=
  { t with contributions := t.contributions ++ [(issuer, company)] }

/-- A company with its metric is one of the distribution. -/
def distribute (t : Tally) (observation : CompanyObservation) : Tally :=
  { t with distribution := t.distribution ++ [observation] }

/-- A company whose metric does not count is none of the distribution. -/
def withhold (t : Tally) (issuer : String) (reasons : List String) : Tally :=
  { t with distributionExcluded := setItem t.distributionExcluded issuer reasons }

/-- A company is excluded for its metric. -/
def leaveOut (t : Tally) (issuer : String) (reasons : List String) : Tally :=
  { t with excluded := setItem t.excluded issuer reasons }

/-- The loop body of `calculate_sector`; nothing where an assertion fails. -/
def visit (roster : SectorRoster) (metric : MetricId) (method : Method) (t : Tally) (entry : String × CompanySnapshot) :
    Option Tally :=
  let (issuer, company) := entry
  let spec := metric.spec
  let issues := inputIssues company roster metric spec
  if issues ≠ [] then some (t.exclude issuer issues)
  else
    let t := t.accept spec issuer company
    ((spec.signField metric).bind company.decimal?).map fun value =>
      match observe company spec with
      | none => (t.count value).contribute issuer company
      | some (.ok observation) =>
        ((t.distribute observation).count (if metric.Growth then observation.value else value)).contribute issuer company
      | some (.error reasons) =>
        if metric.Growth then (t.withhold issuer reasons).leaveOut issuer reasons
        else if method = .total then ((t.withhold issuer reasons).count value).contribute issuer company
        else ((t.withhold issuer reasons).count value).leaveOut issuer reasons

end Tally

/-- The loop of `calculate_sector`. -/
def tallyOf (identical : Number → Number → Bool) (roster : SectorRoster) (companies : List CompanySnapshot) (metric : MetricId)
    (method : Method) : Option Tally :=
  let rejected := rejectedIssuers identical roster companies
  (selectedCompanies identical roster companies).foldlM (Tally.visit roster metric method)
    { excluded := rejected, distributionExcluded := rejected }

end EquityEval.Fundamentals
