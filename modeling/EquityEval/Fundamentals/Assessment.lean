import EquityEval.Fundamentals.Assembly
import EquityEval.Fundamentals.Companies

/-!
# Assessments

A stored calculation is shown only if its formula gives it again. The operands that were assembled are
assembled again; then the policies of a context decide what the value may be used for. A calculation
that cannot be reproduced has no value. The day on which an input was captured is that of its timestamp
in the offset that it was written in, which is a parameter.
-/

namespace EquityEval.Fundamentals

open Workflow DecimalArithmetic Gregorian PointInTime
open Discovery (sortedSet)
open Vintage (hasText)

/-! ### Policies -/

/-- Whether a metric applies to an issuer, and why. -/
structure MetricApplicability where
  metricId : String
  applicable : Option Bool
  rationale : String
  reasoned : hasText metricId = true ∧ hasText rationale = true

/-- The reviewed profile of an issuer. -/
structure ProfilePolicy where
  issuerId : Uuid
  businessModel : String
  lifecycle : String
  instrumentBasis : String
  revision : String
  effectiveOn : Date
  knownOn : Date
  evidenceRefs : List String
  rules : List MetricApplicability
  described : ∀ text ∈ [businessModel, lifecycle, instrumentBasis, revision], hasText text = true
  evidenced : evidenceRefs ≠ [] ∧ ∀ ref ∈ evidenceRefs, hasText ref = true
  unique : (rules.map (·.metricId)).Nodup

/-- How old the newest period may be, and when a filing is due. -/
structure FreshnessPolicy where
  revision : String
  maxAgeDays : ℕ
  evidenceRefs : List String
  expectedPeriodEnd : Option Date := none
  expectedBy : Option Date := none
  named : hasText revision = true
  evidenced : evidenceRefs ≠ [] ∧ ∀ ref ∈ evidenceRefs, hasText ref = true
  paired : expectedPeriodEnd.isSome = expectedBy.isSome ∧ ∀ finish ∈ expectedPeriodEnd, ∀ due ∈ expectedBy, finish ≤ due

/-- What a calculation is evaluated against. -/
structure EvaluationContext where
  asOf : Date
  profile : ProfilePolicy
  freshness : FreshnessPolicy

/-- What has become of a calculation. -/
inductive MetricStatus where
  | valid
  | notMeaningful
  | missing
  | invalid
  | stale
  | unsupported
  | inapplicable
deriving DecidableEq, Repr

/-- A calculation with what may be said of it. -/
structure MetricAssessment where
  calculation : Calculation
  context : EvaluationContext
  applicability : Option Bool
  status : MetricStatus
  value : Option Number
  reasons : List String
  evaluationRevision : String := "s5-assessment-v1"

/-! ### The registry -/

/-- A calculator with the operands that it takes. -/
inductive Calculator where
  | two (calculator : Operand → Operand → Option Calculation)
  | three (calculator : Operand → Operand → Operand → Option Calculation)
  | twoInputs (calculator : FinancialInput → FinancialInput → Option Calculation)
  | threeInputs (calculator : FinancialInput → FinancialInput → FinancialInput → Option Calculation)

/-- A calculator gives a calculation, or raises, for the operands that it takes. -/
def Calculator.apply : Calculator → List Operand → Option (Option Calculation)
  | two calculator, [a, b] => some (calculator a b)
  | three calculator, [a, b, c] => some (calculator a b c)
  | twoInputs calculator, [.input a, .input b] => some (calculator a b)
  | threeInputs calculator, [.input a, .input b, .input c] => some (calculator a b c)
  | _, _ => none

/-- `_CALCULATORS`. -/
def calculators (t : Texts) : List (String × Calculator) :=
  [("revenue_growth_yoy", .two fun a b => revenueGrowth t a b none none),
    ("gross_margin", .two (grossMargin t)),
    ("gross_margin_derived", .two (derivedGrossMargin t)),
    ("operating_margin", .two (operatingMargin t)),
    ("net_margin_consolidated", .two (netMargin t)),
    ("free_cash_flow_ppe", .two (freeCashFlow t)),
    ("free_cash_flow_margin_ppe", .three (freeCashFlowMargin t)),
    ("current_ratio", .twoInputs (currentRatio t)),
    ("net_working_capital", .twoInputs fun a b => some (netWorkingCapital t a b)),
    ("return_on_assets", .threeInputs (returnOnAssets t))]

/-- The reported concepts. -/
def allConcepts : List Concept :=
  [.revenue, .costOfRevenue, .grossProfit, .researchAndDevelopmentExpense, .sellingGeneralAndAdministrativeExpense,
    .operatingExpenses, .operatingIncome, .interestExpense, .pretaxIncome, .incomeTaxExpense, .netIncomeParent,
    .netIncomeConsolidated, .epsBasic, .epsDiluted, .weightedAverageSharesBasic, .weightedAverageSharesDiluted,
    .commonSharesOutstanding, .cashAndCashEquivalents, .shortTermInvestments, .accountsReceivableNet, .inventoryNet,
    .currentAssets, .propertyPlantEquipmentNet, .goodwill, .intangibleAssetsNetExcludingGoodwill, .totalAssets,
    .accountsPayableCurrent, .currentDebt, .longTermDebtNoncurrent, .currentLiabilities, .totalLiabilities, .equityParent,
    .equityIncludingNoncontrollingInterests, .noncontrollingInterests, .cashFromOperatingActivities, .capitalExpendituresPpe,
    .depreciationAndAmortization, .shareBasedCompensation, .dividendsPaid, .shareRepurchases]

/-- The metrics of single reported amounts. -/
def reportedMetrics : List String := allConcepts.map fun concept => "reported." ++ conceptText concept

/-- The calculation of a metric from the operands of a stored one, where the metric takes them; a calculator may raise. -/
def route (t : Texts) (c : Calculation) : Except String (Option Calculation) :=
  if c.metricId ∈ reportedMetrics then
    match c.operands with
    | [source] => .ok (reportedAmount t source)
    | _ => .error "calculation_inputs_invalid"
  else
    match (calculators t).lookup c.metricId with
    | none => .error "unsupported_metric_definition"
    | some calculator =>
      match calculator.apply c.operands, c.review, c.operands with
      | none, _, _ => .error "calculation_inputs_invalid"
      | some result, none, _ => .ok result
      | some _, some (calendar, revision), [current, prior] =>
        if c.metricId = "revenue_growth_yoy" then .ok (revenueGrowth t current prior calendar revision)
        else .error "calculation_projection_mismatch"
      | some _, some _, _ => .error "calculation_projection_mismatch"

/-! ### Reproduction -/

section Reproduction

variable (t : Texts) (identical : Number → Number → Bool)

/-- The amount that its formula assembles from the sources and evidence of an amount, if there is such a formula; a formula may
raise. -/
def reassemble (p : PeriodAmount) : Option (Option PeriodAmount) :=
  if p.formulaId = "direct_annual" then
    match p.operands with
    | [source] => some (some (annualAmount t source p.calendarEvidence))
    | _ => some none
  else if p.formulaId = "sum_four_quarters" then
    (ttmFromQuarters t p.operands p.revisionCompatibility p.calendarEvidence).map some
  else if p.formulaId = "ytd_difference" then
    match p.operands with
    | [current, prior] => (quarterFromYtd t current prior p.calendarEvidence).map some
    | _ => some none
  else if p.formulaId = "annual_ytd_bridge" then
    match p.operands with
    | [annual, current, prior] =>
      (ttmFromAnnualYtd t annual current prior p.revisionCompatibility p.calendarEvidence).map some
    | _ => some none
  else some none

/-- Whether an operand is not what its formula assembles; nothing where that raises. -/
def projectionProblems : Operand → Option (List String)
  | .input _ => some []
  | .period p => (reassemble t p).map fun rebuilt =>
      flagIf (¬ ∃ r ∈ rebuilt, r.equals identical p = true) "period_projection_mismatch"

/-- `_operand_problems`; nothing where it raises. -/
def operandProblems (o : Operand) : Option (List String) := do
  let concept ← o.concept
  let found ← issues t [o] [concept] false
  let projection ← projectionProblems t identical o
  some (found ++ flagIf (concept ∉ supportedFlows) "unsupported_evidence_concept" ++ projection)

/-- What an assembled operand is refused for in a calculation. -/
def operandMismatch (o : Operand) : Option (List String) :=
  if o.isInput then some [] else (operandProblems t identical o).map (·.filter (· = "period_projection_mismatch"))

/-- `_rebuild`; nothing where it raises. -/
def rebuild (c : Calculation) : Option (Option Calculation × List String) :=
  match route t c with
  | .error problem => some (none, [problem])
  | .ok result => do
    let rebuilt ← result
    let found ← c.operands.mapM (operandMismatch t identical)
    some (some rebuilt, found.flatten ++ flagIf (rebuilt.equals identical c = false) "calculation_projection_mismatch")

end Reproduction

/-! ### Evaluation -/

/-- The number of a date as timestamps count days. -/
def dayNumber (d : Date) : Day := d.toOrdinal - 719163

/-- The flag is one of something that is not supported. -/
def unsupportedFlag (flag : String) : Bool := "unsupported_".toList.isPrefixOf flag.toList

/-- `_NM`. -/
def notMeaningfulFlags : List String := ["denominator_nonpositive", "denominator_indistinguishable_from_zero"]

/-- What keeps some sources from being evaluated in a context. -/
def contextProblems (localDay : FinancialInput → Day) (context : EvaluationContext) (sources : List FinancialInput) :
    List String :=
  flagIf (context.profile.instrumentBasis ≠ "consolidated_issuer") "unsupported_profile_instrument_basis" ++
    flagIf (context.asOf < context.profile.effectiveOn ∨ context.asOf < context.profile.knownOn)
      "profile_not_available_at_cutoff" ++
    flagIf (∃ source ∈ sources, source.selection.query.issuerId ≠ context.profile.issuerId) "profile_issuer_mismatch" ++
    flagIf (∃ source ∈ sources, dayNumber context.asOf < source.selection.query.filedCutoff.getD (localDay source) ∨
      context.asOf < source.period.endDate) "input_after_evaluation_cutoff"

/-- The status of a calculation that has no value. -/
def unvaluedStatus (flags : List String) (sources : List FinancialInput) : MetricStatus × List String :=
  let absent := ∃ source ∈ sources, source.fact.bind (·.value) = none
  if flags ≠ [] ∧ flags ⊆ notMeaningfulFlags ∧ ∀ source ∈ sources, source.precision ≠ none then (.notMeaningful, [])
  else if absent ∨ "denominator_precision_unknown" ∈ flags ∨
      flags ⊆ notMeaningfulFlags ∧ ∃ source ∈ sources, source.precision = none then
    (.missing, flagIf (¬ absent) "required_source_precision_unknown")
  else if ∃ flag ∈ flags, unsupportedFlag flag = true ∨
      flag ∈ ["revision_compatibility_unproven", "incompatible_comparison_basis"] then (.unsupported, [])
  else (.invalid, [])

/-- The status of a calculation without its age, its value, and what else is to be said of it. -/
def disposition (problems : List String) (applicability : Option Bool) (value : Option Number) (flags : List String)
    (sources : List FinancialInput) : MetricStatus × Option Number × List String :=
  if problems ≠ [] then (if ∀ flag ∈ problems, unsupportedFlag flag = true then .unsupported else .invalid, none, [])
  else
    match applicability, value with
    | none, _ => (.unsupported, value, ["profile_applicability_unreviewed"])
    | some false, _ => (.inapplicable, value, ["profile_metric_inapplicable"])
    | some true, none => ((unvaluedStatus flags sources).1, none, (unvaluedStatus flags sources).2)
    | some true, some _ => if flags = [] then (.valid, value, []) else (.invalid, none, [])

/-- What the age of the newest source is refused for. -/
def ageProblems (context : EvaluationContext) (sources : List FinancialInput) : List String :=
  match (sources.map (·.period.endDate)).max? with
  | none => []
  | some newest =>
    flagIf ((context.freshness.maxAgeDays : ℤ) < (context.asOf.toOrdinal : ℤ) - newest.toOrdinal) "financial_period_stale" ++
      flagIf (∃ due ∈ context.freshness.expectedBy, ∃ finish ∈ context.freshness.expectedPeriodEnd,
        due < context.asOf ∧ newest < finish) "expected_filing_missing"

/-- `evaluate`; nothing where it raises. -/
def evaluate (t : Texts) (identical : Number → Number → Bool) (localDay : FinancialInput → Day) (c : Calculation)
    (context : EvaluationContext) : Option MetricAssessment := do
  let (rebuilt, found) ← rebuild t identical c
  let sources := c.operands.flatMap (·.leaves)
  let problems := found ++ contextProblems localDay context sources
  let applicability := (context.profile.rules.find? fun rule => rule.metricId = c.metricId).bind (·.applicable)
  let value := if found = [] then rebuilt.bind (·.value) else none
  let (status, value, notes) := disposition problems applicability value (c.flags.filter (· ∉ informational)) sources
  let aged := if status ∈ [.valid, .notMeaningful] then ageProblems context sources else []
  some
    { calculation := c
      context := context
      applicability := applicability
      status := if aged = [] then status else .stale
      value := value
      reasons := sortedSet (c.flags ++ problems ++ notes ++ aged) }

/-! ### Evidence -/

/-- The digests of what evidence is made of. -/
structure Manifests where
  operand : Operand → String
  calculation : Calculation → String

/-- `evidence_from_operand`; nothing where it raises. -/
def evidenceFromOperand (t : Texts) (identical : Number → Number → Bool) (manifests : Manifests) (source : Operand) :
    Option EvidenceValue := do
  let problems ← operandProblems t identical source
  let unit ← source.unitKey
  let value := if problems = [] then source.value t else none
  some
    { value := value
      absoluteError := source.precision.map fun precision => .finite precision.absoluteError
      inputHash := manifests.operand source
      periodStart := source.startDate
      periodEnd := some source.endDate
      usable := value ≠ none ∧ problems = []
      flags := sortedSet (source.flags t ++ problems)
      currency := unit }

/-- What keeps a calculation from being that of free cash flow; nothing where that raises. -/
def fcfProblems (t : Texts) (identical : Number → Number → Bool) (c : Calculation) : Option (List String) :=
  match c.operands with
  | [cfo, capex] =>
    if c.metricId ≠ "free_cash_flow_ppe" then some ["unsupported_fcf_projection"]
    else (freeCashFlow t cfo capex).map fun rebuilt => flagIf (rebuilt.equals identical c = false) "fcf_projection_mismatch"
  | _ => some ["unsupported_fcf_projection"]

/-- The sum of uncertainties that are all known; `none` inside where it is out of range. -/
def summedError (precisions : List (Option PrecisionEvidence)) : Option (Option Decimal) :=
  if ∀ precision ∈ precisions, precision ≠ none then
    some (((precisions.filterMap id).map (·.absoluteError)).foldlM (ratioContext.add? exactTraps) (.ofInt 0))
  else none

/-- `evidence_from_fcf`; nothing where it raises. -/
def evidenceFromFcf (t : Texts) (identical : Number → Number → Bool) (manifests : Manifests) (c : Calculation) :
    Option EvidenceValue := do
  let projection ← fcfProblems t identical c
  let found ← c.operands.mapM (operandProblems t identical)
  let problems := projection ++ found.flatten ++ c.flags.filter (· ∉ informational) ++
    flagIf (¬ IsNumeric c.value) "calculation_value_unavailable"
  let error := if problems = [] then summedError (c.operands.map (·.precision)) else none
  let problems := problems ++ flagIf (error = some none) "unsupported_numeric_range"
  let value := if problems = [] then c.value else none
  some
    { value := value
      absoluteError := error.join.map .finite
      inputHash := manifests.calculation c
      periodStart := c.operands.head?.bind (·.startDate)
      periodEnd := c.operands.head?.map (·.endDate)
      usable := value ≠ none ∧ problems = []
      flags := sortedSet (c.flags ++ problems)
      currency := c.unit
      basis := "cash_ppe_fcf" }

/-! ### What is shown is reproduced -/

/-- What the registered formula of a metric computes from some operands, with the review of one of growth. -/
inductive Formula (t : Texts) :
    String → List Operand → Option (Option FiscalCalendarEvidence × Option RevisionCompatibility) → Calculation → Prop
  | reported {concept source review r} (h : reportedAmount t source = some r) :
      Formula t ("reported." ++ conceptText concept) [source] review r
  | registered {metric calculator operands r} (hmetric : (calculators t).lookup metric = some calculator)
      (h : calculator.apply operands = some (some r)) : Formula t metric operands none r
  | reviewed {current prior calendar revision r} (h : revenueGrowth t current prior calendar revision = some r) :
      Formula t "revenue_growth_yoy" [current, prior] (some (calendar, revision)) r

section Reproduced

variable (t : Texts) (identical : Number → Number → Bool)

/-- The calculation equals the one that the formula of its metric computes from its operands. -/
def Calculation.Reproduced (c : Calculation) : Prop :=
  ∃ r, Formula t c.metricId c.operands c.review r ∧ r.equals identical c = true

/-- The amount equals the one that its formula assembles from its sources and evidence. -/
def PeriodAmount.Reproduced (p : PeriodAmount) : Prop :=
  ∃ r, reassemble t p = some (some r) ∧ Assembled t r ∧ r.equals identical p = true

/-- The input was known on a day: its period has ended, and so have its filing or its capture. -/
def FinancialInput.KnownBy (localDay : FinancialInput → Day) (asOf : Date) (source : FinancialInput) : Prop :=
  source.period.endDate ≤ asOf ∧ source.selection.query.filedCutoff.getD (localDay source) ≤ dayNumber asOf

variable {t identical}

/-- What is computed for a calculation is what the formula of its metric gives. -/
theorem formula_of_route {c r : Calculation} (h : route t c = .ok (some r)) :
    Formula t c.metricId c.operands c.review r := by
  unfold route at h
  split at h
  case isTrue hreported =>
    obtain ⟨concept, -, hconcept⟩ := List.mem_map.mp hreported
    split at h
    next source hoperands =>
      rw [hoperands, ← hconcept]
      exact .reported (Except.ok.inj h)
    next => cases h
  case isFalse =>
    split at h
    next => cases h
    next calculator hcalculator =>
      split at h
      next => cases h
      next result hresult hreview =>
        rw [hreview]
        cases Except.ok.inj h
        exact .registered hcalculator hresult
      next calendar revision current prior _ hreview hoperands =>
        split at h
        next hmetric =>
          rw [hmetric, hreview, hoperands]
          exact .reviewed (Except.ok.inj h)
        next => cases h
      next => cases h

/-- An amount that is assembled again is one that was assembled. -/
theorem assembled_of_reassemble {p r : PeriodAmount} (h : reassemble t p = some (some r)) : Assembled t r := by
  unfold reassemble at h
  split at h
  · split at h
    · rw [← Option.some.inj (Option.some.inj h)]
      exact .annual _ _
    · cases h
  split at h
  · obtain ⟨q, hq, heq⟩ := Option.map_eq_some_iff.mp h
    cases heq
    exact .quarters hq
  split at h
  · split at h
    · obtain ⟨q, hq, heq⟩ := Option.map_eq_some_iff.mp h
      cases heq
      exact .ytd hq
    · cases h
  split at h
  · split at h
    · obtain ⟨q, hq, heq⟩ := Option.map_eq_some_iff.mp h
      cases heq
      exact .bridge hq
    · cases h
  · cases h

/-- An amount whose projection has no problems is reproduced. -/
theorem reproduced_of_projectionProblems {p : PeriodAmount} (h : projectionProblems t identical (.period p) = some []) :
    p.Reproduced t identical := by
  obtain ⟨rebuilt, hrebuilt, hflag⟩ := Option.map_eq_some_iff.mp h
  rw [flagIf_eq_nil, not_not] at hflag
  obtain ⟨r, hr, hequals⟩ := hflag
  rw [Option.mem_def.mp hr] at hrebuilt
  exact ⟨r, hrebuilt, assembled_of_reassemble hrebuilt, hequals⟩

/-- The problems of an operand are among others those of its projection. -/
theorem projectionProblems_of_operandProblems {o : Operand} {found : List String}
    (h : operandProblems t identical o = some found) :
    ∃ projection, projectionProblems t identical o = some projection ∧ projection ⊆ found := by
  simp only [operandProblems, Option.bind_eq_bind, Option.bind_eq_some_iff] at h
  obtain ⟨concept, -, others, -, projection, hprojection, heq⟩ := h
  cases heq
  exact ⟨projection, hprojection, fun _ hmem => List.mem_append_right _ hmem⟩

/-- A projection has no problem but a mismatch. -/
theorem mem_projectionProblems {o : Operand} {projection : List String} (h : projectionProblems t identical o = some projection)
    {flag : String} (hflag : flag ∈ projection) : flag = "period_projection_mismatch" := by
  cases o with
  | input source =>
    cases h
    cases hflag
  | period p =>
    obtain ⟨rebuilt, -, rfl⟩ := Option.map_eq_some_iff.mp h
    unfold flagIf at hflag
    split at hflag
    · exact List.mem_singleton.mp hflag
    · cases hflag

/-- An operand without problems is reproduced. -/
theorem reproduced_of_operandProblems {p : PeriodAmount} (h : operandProblems t identical (.period p) = some []) :
    p.Reproduced t identical := by
  obtain ⟨projection, hprojection, hsubset⟩ := projectionProblems_of_operandProblems h
  rw [List.subset_nil.mp hsubset] at hprojection
  exact reproduced_of_projectionProblems hprojection

/-- An operand without a mismatch is reproduced. -/
theorem reproduced_of_operandMismatch {p : PeriodAmount} (h : operandMismatch t identical (.period p) = some []) :
    p.Reproduced t identical := by
  obtain ⟨found, hfound, hnone⟩ := Option.map_eq_some_iff.mp h
  obtain ⟨projection, hprojection, hsubset⟩ := projectionProblems_of_operandProblems hfound
  have hempty : projection = [] := by
    refine List.eq_nil_iff_forall_not_mem.mpr fun flag hflag => ?_
    have hmem : flag ∈ found.filter (· = "period_projection_mismatch") :=
      List.mem_filter.mpr ⟨hsubset hflag, decide_eq_true (mem_projectionProblems hprojection hflag)⟩
    rw [hnone] at hmem
    cases hmem
  rw [hempty] at hprojection
  exact reproduced_of_projectionProblems hprojection

/-- What is found of each operand is nothing when it is nothing together. -/
theorem nil_of_mapM {check : Operand → Option (List String)} {operands : List Operand} {found : List (List String)}
    (h : operands.mapM check = some found) (hnil : found.flatten = []) : ∀ o ∈ operands, check o = some [] := by
  induction operands generalizing found with
  | nil => exact fun _ ho => absurd ho List.not_mem_nil
  | cons first rest ih =>
    simp only [List.mapM_cons, Option.bind_eq_bind, Option.bind_eq_some_iff] at h
    obtain ⟨issues, hfirst, others, hrest, heq⟩ := h
    cases heq
    rw [List.flatten_cons, List.append_eq_nil_iff] at hnil
    rintro o (_ | ⟨_, ho⟩)
    · rw [hfirst, hnil.1]
    · exact ih hrest hnil.2 o ho

/-- A calculation that is rebuilt without problems is what its formula gives, and its operands are reproduced. -/
theorem reproduced_of_rebuild {c : Calculation} {rebuilt : Option Calculation}
    (h : rebuild t identical c = some (rebuilt, [])) :
    (∃ r, rebuilt = some r ∧ Formula t c.metricId c.operands c.review r ∧ r.equals identical c = true) ∧
      ∀ p, .period p ∈ c.operands → p.Reproduced t identical := by
  unfold rebuild at h
  split at h
  next problem _ => cases h
  next result hroute =>
    simp only [Option.bind_eq_bind, Option.bind_eq_some_iff, Option.some.injEq, Prod.mk.injEq] at h
    obtain ⟨r, rfl, issues, hissues, rfl, hnil⟩ := h
    rw [List.append_eq_nil_iff, flagIf_eq_nil, Bool.not_eq_false] at hnil
    exact ⟨⟨r, rfl, formula_of_route hroute, hnil.2⟩, fun p hp =>
      reproduced_of_operandMismatch (nil_of_mapM hissues hnil.1 _ hp)⟩

/-- A value that is shown is the one that was computed, and there are no problems. -/
theorem disposition_value {problems : List String} {applicability : Option Bool} {value : Option Number} {flags : List String}
    {sources : List FinancialInput} (h : (disposition problems applicability value flags sources).2.1 ≠ none) :
    problems = [] ∧ (disposition problems applicability value flags sources).2.1 = value := by
  by_cases hproblems : problems = []
  · refine ⟨hproblems, ?_⟩
    rw [disposition.eq_def, if_neg (not_not.mpr hproblems)] at h ⊢
    split at h
    · rfl
    · rfl
    · exact absurd rfl h
    · split at h
      · rw [if_pos ‹_›]
      · exact absurd rfl h
  · rw [disposition.eq_def, if_pos hproblems] at h
    exact absurd rfl h

/-- Sources that a context has no problems with were known then, and are of its issuer. -/
theorem known_of_contextProblems {localDay : FinancialInput → Day} {context : EvaluationContext} {sources : List FinancialInput}
    (h : contextProblems localDay context sources = []) :
    ∀ source ∈ sources, source.KnownBy localDay context.asOf ∧ source.selection.query.issuerId = context.profile.issuerId := by
  simp only [contextProblems, List.append_eq_nil_iff, flagIf_eq_nil, not_exists, not_and, not_or, not_lt, not_not] at h
  obtain ⟨⟨-, hissuer⟩, hcutoff⟩ := h
  exact fun source hsource => ⟨⟨(hcutoff source hsource).2, (hcutoff source hsource).1⟩, hissuer source hsource⟩

/-- A calculation of free cash flow without problems is reproduced. -/
theorem reproduced_of_fcfProblems {c : Calculation} (h : fcfProblems t identical c = some []) :
    c.metricId = "free_cash_flow_ppe" ∧ c.Reproduced t identical := by
  unfold fcfProblems at h
  split at h
  case h_2 => cases h
  case h_1 cfo capex hoperands =>
    split at h
    · cases h
    next hmetric =>
      obtain ⟨r, hr, hflag⟩ := Option.map_eq_some_iff.mp h
      rw [flagIf_eq_nil, Bool.not_eq_false] at hflag
      rw [not_not] at hmetric
      have hplain : r.review = none := by
        simp only [freeCashFlow, Option.bind_eq_bind, Option.bind_eq_some_iff] at hr
        obtain ⟨_, -, _, -, heq⟩ := hr
        cases heq
        rfl
      have hreview : c.review = none := by
        simp only [Calculation.equals, Bool.and_eq_true, decide_eq_true_eq] at hflag
        exact hflag.2.2.2.2.2.2.symm.trans hplain
      have hregistered : (calculators t).lookup "free_cash_flow_ppe" = some (.two (freeCashFlow t)) := rfl
      refine ⟨hmetric, r, ?_, hflag⟩
      rw [hmetric, hoperands, hreview]
      exact .registered hregistered (congrArg some hr)

end Reproduced

/-- Edited outputs never become observations: a value is shown, or evidence is usable, only where formulas give the same objects
again; what is shown is of inputs that were known and are of the issuer. -/
theorem outputs_reproduced (t : Texts) (identical : Number → Number → Bool) (localDay : FinancialInput → Day)
    (manifests : Manifests) :
    (∀ c context assessment, evaluate t identical localDay c context = some assessment → assessment.value ≠ none →
      (∃ r, Formula t c.metricId c.operands c.review r ∧ r.equals identical c = true ∧ assessment.value = r.value) ∧
        (∀ p, .period p ∈ c.operands → p.Reproduced t identical) ∧
        ∀ source ∈ c.operands.flatMap (·.leaves), source.KnownBy localDay context.asOf ∧
          source.selection.query.issuerId = context.profile.issuerId) ∧
    (∀ p evidence, evidenceFromOperand t identical manifests (.period p) = some evidence → evidence.usable = true →
      p.Reproduced t identical) ∧
    ∀ c evidence, evidenceFromFcf t identical manifests c = some evidence → evidence.usable = true →
      c.metricId = "free_cash_flow_ppe" ∧ c.Reproduced t identical ∧ ∀ p, .period p ∈ c.operands → p.Reproduced t identical := by
  refine ⟨fun c context assessment h hvalue => ?_, fun p evidence h husable => ?_, fun c evidence h husable => ?_⟩
  · simp only [evaluate, Option.bind_eq_bind, Option.bind_eq_some_iff] at h
    obtain ⟨⟨rebuilt, found⟩, hrebuild, heq⟩ := h
    cases heq
    obtain ⟨hproblems, hshown⟩ := disposition_value hvalue
    obtain ⟨rfl, hcontext⟩ := List.append_eq_nil_iff.mp hproblems
    obtain ⟨⟨r, rfl, hformula, hequals⟩, hoperands⟩ := reproduced_of_rebuild hrebuild
    exact ⟨⟨r, hformula, hequals, hshown⟩, hoperands, known_of_contextProblems hcontext⟩
  · simp only [evidenceFromOperand, Option.bind_eq_bind, Option.bind_eq_some_iff] at h
    obtain ⟨problems, hproblems, unit, -, heq⟩ := h
    cases heq
    have hnil : problems = [] := (of_decide_eq_true husable).2
    rw [hnil] at hproblems
    exact reproduced_of_operandProblems hproblems
  · simp only [evidenceFromFcf, Option.bind_eq_bind, Option.bind_eq_some_iff] at h
    obtain ⟨projection, hprojection, found, hfound, heq⟩ := h
    cases heq
    have hnil := (of_decide_eq_true husable).2
    simp only [List.append_eq_nil_iff] at hnil
    rw [hnil.1.1.1.1] at hprojection
    obtain ⟨hmetric, hreproduced⟩ := reproduced_of_fcfProblems hprojection
    exact ⟨hmetric, hreproduced, fun p hp => reproduced_of_operandProblems (nil_of_mapM hfound hnil.1.1.1.2 _ hp)⟩

/-! ### A quarter and its cash flow -/

/-- The descriptor of a scope of payments. -/
def samplePaymentDescriptor : String :=
  "\x7b\"cash_scope\":\"not_applicable\",\"consolidation\":\"consolidated\",\"context_knowledge\":\"reported\"," ++
    "\"instrument\":null,\"payment_basis\":\"actual_cash_payment\",\"revenue_basis\":\"reported_complete_scope\"," ++
      "\"scope_evidence\":\"10-K\"\x7d"

/-- What is read from the texts of the samples of cash flows. -/
def sampleCashTexts : Texts :=
  { sampleTexts with
    loads := fun text =>
      if text = samplePaymentDescriptor then
        some [("cash_scope", .text "not_applicable"), ("consolidation", .text "consolidated"),
          ("context_knowledge", .text "reported"), ("instrument", .null), ("payment_basis", .text "actual_cash_payment"),
          ("revenue_basis", .text "reported_complete_scope"), ("scope_evidence", .text "10-K")]
      else sampleTexts.loads text
    sha256 := fun text => if text = samplePaymentDescriptor then sampleDigest 'd' else sampleTexts.sha256 text }

/-- An amount of the cash flow statement of the first quarter. -/
def sampleCash (concept : Concept) (observation amount : ℕ) (scope : ScopeSpec) : FinancialInput :=
  let revenue := sampleRevenue ⟨2024, 1, 1, Date.inYears_2024, Date.inMonths_1, Date.inDays_2024_1_1⟩
    ⟨2024, 3, 31, Date.inYears_2024, Date.inMonths_3, Date.inDays_2024_3_31⟩ 13 observation amount (some (samplePrecision observation 5))
  { revenue with
    selection :=
      { revenue.selection with
        query :=
          { revenue.selection.query with
            statementFamily := .cashFlow
            concepts := [concept]
            pinned := by simp [revenue, sampleRevenue, sampleQuery] }
        facts := revenue.selection.facts.map fun fact => { fact with concept := concept } }
    concept := concept
    scope := scope }

/-- The cash flow of the samples. -/
def sampleCashFlow : Option Calculation :=
  freeCashFlow sampleCashTexts (.input (sampleCash .cashFromOperatingActivities 21 100 sampleFirstQuarter.scope))
    (.input (sampleCash .capitalExpendituresPpe 22 40
      { sampleFirstQuarter.scope with descriptorJson := samplePaymentDescriptor, contentSha256 := sampleDigest 'd' }))

/-- The context of the samples. -/
def sampleContext : EvaluationContext where
  asOf := ⟨2025, 1, 1, Date.inYears_2025, Date.inMonths_1, Date.inDays_2025_1_1⟩
  profile :=
    { issuerId := 1, businessModel := "b", lifecycle := "l", instrumentBasis := "consolidated_issuer", revision := "r",
      effectiveOn := ⟨2024, 1, 1, Date.inYears_2024, Date.inMonths_1, Date.inDays_2024_1_1⟩,
      knownOn := ⟨2024, 1, 1, Date.inYears_2024, Date.inMonths_1, Date.inDays_2024_1_1⟩,
      evidenceRefs := ["e"], rules := [⟨"reported.revenue", some true, "r", by decide +kernel⟩], described := by decide +kernel,
      evidenced := by decide +kernel, unique := by decide }
  freshness :=
    { revision := "r", maxAgeDays := 400, evidenceRefs := ["e"], named := by decide +kernel, evidenced := by decide +kernel,
      paired := by decide }

/-- The samples are shown as they are reproduced. -/
theorem sampleOutputs :
    ((quarterFromYtd sampleTexts sampleHalf sampleFirstQuarter none).bind fun q =>
      (reportedAmount sampleTexts (.period q)).bind fun c =>
        (evaluate sampleTexts (fun _ _ => false) (fun _ => 20000) c sampleContext).bind fun a =>
          (evidenceFromOperand sampleTexts (fun _ _ => false) ⟨fun _ => "", fun _ => ""⟩ (.period q)).map fun e =>
            (a.value, a.status, e.usable)) = some (some (.finite ⟨false, 150, 0⟩), .valid, true) := by
  decide +kernel

/-- The cash flow of the samples is evidence. -/
theorem sampleCashFlow_usable :
    (sampleCashFlow.bind fun c => (evidenceFromFcf sampleCashTexts (fun _ _ => false) ⟨fun _ => "", fun _ => ""⟩ c).map fun e =>
      (e.value, e.usable)) = some (some (.finite ⟨false, 60, 0⟩), true) := by
  decide +kernel

/-- What is shown of the samples was reproduced. -/
theorem outputs_reproduced_sample :
    (∃ q c a, ∃ e : EvidenceValue, quarterFromYtd sampleTexts sampleHalf sampleFirstQuarter none = some q ∧
      evaluate sampleTexts (fun _ _ => false) (fun _ => 20000) c sampleContext = some a ∧ a.value ≠ none ∧
        e.usable = true ∧ (∃ r, Formula sampleTexts c.metricId c.operands c.review r ∧ a.value = r.value) ∧
        q.Reproduced sampleTexts (fun _ _ => false)) ∧
    ∃ c, sampleCashFlow = some c ∧ c.Reproduced sampleCashTexts (fun _ _ => false) := by
  refine ⟨?_, ?_⟩
  · obtain ⟨q, hq, h⟩ := Option.bind_eq_some_iff.mp sampleOutputs
    obtain ⟨c, -, h⟩ := Option.bind_eq_some_iff.mp h
    obtain ⟨a, ha, h⟩ := Option.bind_eq_some_iff.mp h
    obtain ⟨e, he, h⟩ := Option.map_eq_some_iff.mp h
    have hvalue : a.value ≠ none := by rw [show a.value = _ from congrArg (·.1) h]; exact Option.some_ne_none _
    have husable : e.usable = true := congrArg (·.2.2) h
    obtain ⟨hshown, hoperand, -⟩ :=
      outputs_reproduced sampleTexts (fun _ _ => false) (fun _ => 20000) ⟨fun _ => "", fun _ => ""⟩
    obtain ⟨⟨r, hr, -, heq⟩, -⟩ := hshown c sampleContext a ha hvalue
    exact ⟨q, c, a, e, hq, ha, hvalue, husable, ⟨r, hr, heq⟩, hoperand q e he husable⟩
  · obtain ⟨c, hc, h⟩ := Option.bind_eq_some_iff.mp sampleCashFlow_usable
    obtain ⟨e, he, h⟩ := Option.map_eq_some_iff.mp h
    obtain ⟨-, -, hcash⟩ :=
      outputs_reproduced sampleCashTexts (fun _ _ => false) (fun _ => 20000) ⟨fun _ => "", fun _ => ""⟩
    exact ⟨c, hc, (hcash c e he (congrArg (·.2) h)).2.1⟩

end EquityEval.Fundamentals
