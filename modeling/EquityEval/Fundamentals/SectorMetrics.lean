import EquityEval.Fundamentals.Sectors

/-!
# The metric of a sector

What has been found of the companies is aggregated by the method. A sum or ratio that is out of range
leaves no value. Comparison is allowed when the roster is complete and enough of it, by number and by
capitalization, is covered.
-/

namespace EquityEval.Fundamentals

open DecimalArithmetic Gregorian
open Discovery (sortedSet)

/-- The metric of a sector with the issuers that it is made of. -/
structure SectorMetric where
  metricId : String
  method : String
  value : Option Decimal
  numeratorTotal : Option Decimal
  denominatorTotal : Option Decimal
  n : ℕ
  k : ℕ
  v : ℕ
  issuerCoverage : Option Decimal
  capCoverage : Option Decimal
  ratioEligibility : Option Decimal
  meaningfulCompanyCount : ℕ
  fullMarketCap : Option Decimal
  contributingMarketCap : Option Decimal
  eligibleIssuerIds : List String
  contributingIssuerIds : List String
  excluded : List IssuerExclusion
  distributionExcluded : List IssuerExclusion
  distribution : List CompanyObservation
  p25 : Option Decimal
  p50 : Option Decimal
  p75 : Option Decimal
  positiveCount : ℕ
  zeroCount : ℕ
  negativeCount : ℕ
  signBasis : String
  zeroDenominatorCount : ℕ
  comparisonAllowed : Bool
  flags : List String
  financialDateRange : Option (Date × Date)
  quoteDateRange : Option (Date × Date)
  contextKey : String
  cohortId : String
  policyRevision : String
  roster : SectorRoster
  companySnapshots : List CompanySnapshot

/-! ### Aggregates -/

/-- The quartiles of sorted values; nothing where they raise. -/
def quartiles (values : List Decimal) : Option (Option Decimal × Option Decimal × Option Decimal) :=
  if values = [] then some (none, none, none)
  else do
    let p25 ← quantile values ⟨false, 25, -2⟩
    let p50 ← quantile values ⟨false, 5, -1⟩
    let p75 ← quantile values ⟨false, 75, -2⟩
    some (some p25, some p50, some p75)

/-- The value of a sector and what it is the ratio of. -/
structure Aggregate where
  value : Option Decimal := none
  numeratorTotal : Option Decimal := none
  denominatorTotal : Option Decimal := none
  flags : List String := []

/-- A ratio, unless it is out of range. -/
def Aggregate.ratio (numerator denominator : Decimal) : Aggregate :=
  { value := fraction numerator denominator
    numeratorTotal := some numerator
    denominatorTotal := some denominator
    flags := flagIf (fraction numerator denominator = none) "unsupported_numeric_range" }

/-- The numbers of a field of companies. -/
def numbersOf (companies : List (String × CompanySnapshot)) (field : Option Field) (amount : EvidenceValue → Option Number) :
    List Number :=
  field.elim [] fun f => companies.filterMap fun c => amount (c.2.get f)

/-- The ratio of the totals of a metric. -/
def Aggregate.ofTotals (metric : MetricId) (contributions : List (String × CompanySnapshot)) : Aggregate :=
  match sumOf (numbersOf contributions metric.spec.numerator (·.value)) with
  | none => { flags := ["unsupported_numeric_range"] }
  | some numerator =>
    match sumOf (numbersOf contributions metric.spec.denominator (·.value)) with
    | none => { numeratorTotal := some numerator, flags := ["unsupported_numeric_range"] }
    | some denominator =>
      let totals : Aggregate := { numeratorTotal := some numerator, denominatorTotal := some denominator }
      match sumOf (numbersOf contributions metric.spec.denominator (·.absoluteError)) with
      | none => { totals with flags := ["unsupported_numeric_range"] }
      | some error =>
        if denominator ≤ .ofInt 0 then { totals with flags := ["denominator_nonpositive"] }
        else if denominator ≤ error then { totals with flags := ["denominator_indistinguishable_from_zero"] }
        else
          -- the change is formed before the division, which would lose a small one
          let dividend := if metric = .revenueYoy then exactSum [.finite numerator, .finite denominator] [1, -1]
            else some numerator
          match dividend.bind (fraction · denominator) with
          | none => { totals with flags := ["unsupported_numeric_range"] }
          | some value => { totals with value := some value }

/-- The aggregate of the companies that contribute. -/
def Aggregate.of (metric : MetricId) (method : Method) (t : Tally) (values : List Decimal) (p50 : Option Decimal) : Aggregate :=
  let v : ℕ := t.contributions.length
  if v = 0 then { flags := ["no_contributors"] }
  else if metric.Breadth then .ratio (.ofInt t.positive) (.ofInt v)
  else match method with
    | .median => { value := p50 }
    | .mean =>
      match sumOf (values.map .finite) with
      | none => { flags := ["unsupported_numeric_range"] }
      | some numerator => .ratio numerator (.ofInt v)
    | .total => .ofTotals metric t.contributions

/-! ### Coverage -/

/-- The capitalization of a sector, and how much of it contributes; `raised` where a sum or ratio is out of range. -/
structure Capitalization where
  full : Option Decimal := none
  contributing : Option Decimal := none
  coverage : Option Decimal := none
  raised : Bool := false
  flags : List String := []

/-- The capitalization of selected companies. -/
def Capitalization.of (roster : SectorRoster) (selected contributions : List (String × CompanySnapshot)) : Capitalization :=
  let caps := selected.map fun c => (c.1, capOf c.2 roster)
  if roster.issuers ≠ [] ∧ caps.length = roster.issuers.length ∧ ∀ cap ∈ caps, cap.2 ≠ none then
    match sumOf (caps.filterMap fun cap => cap.2.map .finite) with
    | none => { raised := true }
    | some full =>
      match sumOf ((caps.filter fun cap => cap.1 ∈ contributions.map (·.1)).filterMap fun cap => cap.2.map .finite) with
      | none => { full := some full, raised := true }
      | some contributing =>
        match fraction contributing full with
        | none => { full := some full, contributing := some contributing, raised := true }
        | some coverage => { full := some full, contributing := some contributing, coverage := some coverage }
  else { flags := ["full_capitalization_unknown"] }

/-- A ratio of counts where it is asked for; nothing where it raises. -/
def countRatio (wanted : Prop) [Decidable wanted] (numerator denominator : ℕ) : Option (Option Decimal) :=
  if wanted then (fraction (.ofInt numerator) (.ofInt denominator)).map some else some none

/-- How much of the roster is eligible, and how many of these have a metric that counts. -/
def coverageOf (roster : SectorRoster) (metric : MetricId) (t : Tally) : Option (Option Decimal × Option Decimal) := do
  let issuer ← countRatio (roster.issuers ≠ []) t.complete.length roster.issuers.length
  let ratio ← countRatio (t.complete ≠ [] ∧ metric.spec.companyMetric ≠ none) t.distribution.length t.complete.length
  some (issuer, ratio)

/-- `_dates`. -/
def dateRange (days : List Date) : Option (Date × Date) := do
  let first ← days.min?
  let last ← days.max?
  some (first, last)

/-- The order of a distribution. -/
def CompanyObservation.Before (a b : CompanyObservation) : Prop :=
  a.value < b.value ∨ a.value ≤ b.value ∧ a.issuerId ≤ b.issuerId

instance : DecidableRel CompanyObservation.Before := fun _ _ => inferInstanceAs (Decidable (_ ∨ _))

/-- Exclusions in the order of their issuers. -/
def exclusions (items : List (String × List String)) : List IssuerExclusion :=
  (items.insertionSort fun a b => a.1 ≤ b.1).map fun item => ⟨item.1, item.2⟩

/-- Comparison of the metric of a sector is allowed. -/
def ComparisonAllowed (roster : SectorRoster) (policy : SectorPolicy) (contributors : ℕ)
    (value issuerCoverage capCoverage : Option Decimal) : Prop :=
  roster.complete = true ∧ value ≠ none ∧ policy.minimumContributors ≤ contributors ∧
    (∃ coverage ∈ issuerCoverage, policy.minimumIssuerCoverage ≤ coverage) ∧
    ∃ coverage ∈ capCoverage, policy.minimumCapCoverage ≤ coverage

instance (roster : SectorRoster) (policy : SectorPolicy) (contributors : ℕ) (value issuerCoverage capCoverage : Option Decimal) :
    Decidable (ComparisonAllowed roster policy contributors value issuerCoverage capCoverage) :=
  inferInstanceAs (Decidable (_ ∧ _))

/-- What `calculate_sector` returns of what its loop has found. -/
def SectorMetric.of (identical : Number → Number → Bool) (digest : String → String) (roster : SectorRoster)
    (companies : List CompanySnapshot) (metric : MetricId) (method : Method) (policy : SectorPolicy) (t : Tally) : SectorMetric :=
  let values := (t.distribution.map (·.value)).insertionSort (· ≤ ·)
  let quarters := quartiles values
  let aggregate := quarters.elim { flags := ["unsupported_numeric_range"] } fun q => Aggregate.of metric method t values q.2.1
  let capitalization := Capitalization.of roster (selectedCompanies identical roster companies) t.contributions
  let coverage := if capitalization.raised then none else coverageOf roster metric t
  let issuerCoverage := coverage.bind (·.1)
  let allowed := ComparisonAllowed roster policy t.contributions.length aggregate.value issuerCoverage capitalization.coverage
  { metricId := metric.text
    method := method.text
    value := aggregate.value
    numeratorTotal := aggregate.numeratorTotal
    denominatorTotal := aggregate.denominatorTotal
    n := roster.issuers.length
    k := t.complete.length
    v := t.contributions.length
    issuerCoverage := issuerCoverage
    capCoverage := capitalization.coverage
    ratioEligibility := coverage.bind (·.2)
    meaningfulCompanyCount := t.distribution.length
    fullMarketCap := capitalization.full
    contributingMarketCap := capitalization.contributing
    eligibleIssuerIds := t.complete.map (·.1)
    contributingIssuerIds := t.contributions.map (·.1)
    excluded := exclusions t.excluded
    distributionExcluded := exclusions t.distributionExcluded
    distribution := t.distribution.insertionSort CompanyObservation.Before
    p25 := quarters.bind (·.1)
    p50 := quarters.bind (·.2.1)
    p75 := quarters.bind (·.2.2)
    positiveCount := t.positive
    zeroCount := t.zero
    negativeCount := t.negative
    signBasis := (metric.spec.signBasis metric).getD ""
    zeroDenominatorCount := t.zeroDenominators
    comparisonAllowed := allowed
    flags := sortedSet (t.flags ++ aggregate.flags ++ capitalization.flags ++
      flagIf (coverage = none) "unsupported_numeric_range" ++
      flagIf (t.contributions.length < policy.minimumContributors) "small_sample" ++
      flagIf (roster.complete = false) "partial_sector_universe" ++ flagIf (¬ allowed) "limited_coverage")
    financialDateRange := dateRange (t.contributions.flatMap fun c =>
      (metric.spec.fields.filter (· ≠ .marketCap)).filterMap fun f => (c.2.get f).periodEnd)
    quoteDateRange := dateRange (t.contributions.filterMap fun c => c.2.marketCap.periodEnd)
    contextKey := roster.contextKey
    cohortId := digest ("|".intercalate (roster.inputHash :: metric.text :: method.text ::
      t.contributions.map fun c => c.1 ++ ":" ++ c.2.snapshotId))
    policyRevision := policy.revision
    roster := roster
    companySnapshots := companies }

/-- `calculate_sector`; nothing where it raises. -/
def calculateSector (identical : Number → Number → Bool) (digest : String → String) (roster : SectorRoster)
    (companies : List CompanySnapshot) (metric : MetricId) (method : Method) (policy : SectorPolicy) : Option SectorMetric :=
  (tallyOf identical roster companies metric method).map
    (SectorMetric.of identical digest roster companies metric method policy)

end EquityEval.Fundamentals
