import EquityEval.Fundamentals.Inputs

/-!
# What keeps inputs from being combined

Inputs are combined only when each has a value, and they share their history, reporting basis and
currency, come from the right kind of statement and have a reviewed semantic scope.
-/

namespace EquityEval.Fundamentals

open Workflow DecimalArithmetic Gregorian PointInTime
open Discovery (sortedSet)

/-- `len({key(item) for item in items}) != 1`. -/
def Differ {α κ : Type} [DecidableEq κ] (key : α → κ) (items : List α) : Prop := (items.map key).dedup.length ≠ 1

instance {α κ : Type} [DecidableEq κ] (key : α → κ) (items : List α) : Decidable (Differ key items) :=
  inferInstanceAs (Decidable (_ ≠ _))

/-- The unit is a whole currency. -/
def UnitSpec.WholeCurrency (u : UnitSpec) : Prop :=
  currencyCode u.unitKey = true ∧ u.numeratorMeasures = ["iso4217:" ++ u.unitKey] ∧ u.denominatorMeasures = []

instance (u : UnitSpec) : Decidable u.WholeCurrency := inferInstanceAs (Decidable (_ ∧ _))

/-- What makes two units the same. -/
def UnitSpec.measures (u : UnitSpec) : String × List String × List String :=
  (u.unitKey, u.numeratorMeasures, u.denominatorMeasures)

/-- `_selection_issues`. -/
def selectionIssues (t : Texts) (operands : List FinancialInput) (expected : List Concept) : List String :=
  operands.flatMap (·.blockingFlags t) ++
    flagIf (∃ item ∈ operands, item.value t = none) "source_input_unavailable" ++
    flagIf (operands.map (·.concept) ≠ expected) "unexpected_concept" ++
    flagIf (Differ (·.historyKey) operands) "incompatible_history_policy" ++
    flagIf (Differ (·.selection.reportingBasis) operands) "incompatible_reporting_basis" ++
    flagIf (∃ item ∈ operands, item.selection.reportingBasis ∉ [some "us_gaap", some "ifrs"])
      "unsupported_reporting_basis" ++
    flagIf (Differ (·.unit.measures) operands ∨ ∃ item ∈ operands, ¬ item.unit.WholeCurrency) "incompatible_units"

/-- The concepts of the cash flow statement that are combined. -/
def cashConcept (concept : Concept) : Bool := concept ∈ [.cashFromOperatingActivities, .capitalExpendituresPpe]

/-- The statement that a concept comes from. -/
def expectedFamily (balanceSheet : Bool) (concept : Concept) : StatementFamily :=
  if balanceSheet then .balanceSheet else if cashConcept concept then .cashFlow else .income

/-- The keys of the descriptor of a reviewed semantic scope. -/
def scopeKeys : List String :=
  ["consolidation", "instrument", "context_knowledge", "scope_evidence", "cash_scope", "payment_basis", "revenue_basis"]

/-- The scope of an input is the reviewed one of its concept. -/
def supportedScope (t : Texts) (item : FinancialInput) : Bool :=
  let payment := if item.concept = .capitalExpendituresPpe then "actual_cash_payment" else "as_reported"
  match t.loads item.scope.descriptorJson with
  | none => false
  | some scope =>
    let keys := scope.map (·.1)
    decide (keys ⊆ scopeKeys) && decide (scopeKeys ⊆ keys) && item.scope.scopeKind = "consolidated" &&
      item.scope.instrumentId = none && scope.lookup "consolidation" = some (.text "consolidated") &&
      scope.lookup "instrument" = some .null && scope.lookup "payment_basis" = some (.text payment) &&
      scope.lookup "cash_scope" = some (.text "not_applicable") &&
      scope.lookup "revenue_basis" = some (.text "reported_complete_scope")

/-- `_source_issues`. -/
def sourceIssues (t : Texts) (operands : List FinancialInput) (expected : List Concept) (samePeriod balanceSheet : Bool) :
    List String :=
  selectionIssues t operands expected ++
    (if balanceSheet then
      flagIf (∃ item ∈ operands, item.period.periodKind ≠ .instant ∨ item.period.startDate ≠ none)
        "instant_period_required"
    else
      flagIf (∃ item ∈ operands, item.period.periodKind ≠ .duration ∨ item.period.startDate = none)
        "flow_period_required") ++
    (if samePeriod then
      flagIf (Differ (fun item => (item.period.startDate, item.period.endDate)) operands) "incompatible_periods" ++
        flagIf (Differ (fun item => sortedSet item.selection.filingVersionIds) operands) "incompatible_filing_editions"
    else []) ++
    flagIf (∃ item ∈ operands, item.selection.query.statementFamily ≠ expectedFamily balanceSheet item.concept)
      "incompatible_statement_family" ++
    flagIf (∃ item ∈ operands, supportedScope t item = false) "unsupported_semantic_scope"

variable {t : Texts} {operands : List FinancialInput} {expected : List Concept} {samePeriod balanceSheet : Bool}

/-- Inputs without issues are not blocked. -/
theorem blockingFlags_of_selectionIssues (h : selectionIssues t operands expected = []) :
    ∀ item ∈ operands, item.blockingFlags t = [] := by
  simp only [selectionIssues, List.append_eq_nil_iff, List.flatMap_eq_nil_iff] at h
  exact h.1.1.1.1.1.1

/-- Inputs of flows without issues are not blocked, and have a first day. -/
theorem flow_of_sourceIssues (h : sourceIssues t operands expected samePeriod false = []) :
    ∀ item ∈ operands, item.blockingFlags t = [] ∧ ∃ start, item.period.startDate = some start ∧
      start ≤ item.period.endDate := by
  simp only [sourceIssues, List.append_eq_nil_iff, Bool.false_eq_true, if_false, flagIf_eq_nil, not_exists, not_and,
    not_or, not_not] at h
  obtain ⟨⟨⟨⟨hselection, hflow⟩, -⟩, -⟩, -⟩ := h
  intro item hitem
  have hblocking := blockingFlags_of_selectionIssues hselection item hitem
  refine ⟨hblocking, ?_⟩
  rcases FinancialInput.valid_of_blockingFlags hblocking with ⟨hinstant, -⟩ | ⟨-, start, hstart, hle⟩
  · exact absurd (hinstant.symm.trans (hflow item hitem).1) (by decide)
  · exact ⟨start, hstart, hle⟩

end EquityEval.Fundamentals
