import EquityEval.Fundamentals.Metrics

/-!
# Evidence of a company

Evidence is an evaluated amount with the days it is about and how uncertain it is. It counts when no
check finds an issue; flags that only inform are none.
-/

namespace EquityEval.Fundamentals

open DecimalArithmetic Gregorian
open Discovery (sortedSet sortedSet_eq_nil)

/-- An evaluated amount; nothing has been checked of it. -/
structure EvidenceValue where
  value : Option Number
  absoluteError : Option Number
  inputHash : String
  periodStart : Option Date
  periodEnd : Option Date
  usable : Bool
  flags : List String := []
  currency : String := "USD"
  basis : String := "consolidated_flow"
deriving DecidableEq

/-- An evaluated metric of a company. -/
structure CompanyMetric where
  metricId : String
  value : Option Number
  inputHash : String
  operandHashes : List String
  usable : Bool
  flags : List String := []
deriving DecidableEq

/-- The flags that only inform. -/
def informational : List String := ["revised_view", "earliest_available", "extreme_margin", "gross_profit_derived"]

/-- The text is a digest: `[0-9a-f]{64}`. -/
def isDigest (text : String) : Bool :=
  text.length = 64 && text.toList.all fun c => c.isDigit || ('a' ≤ c && c ≤ 'f')

/-- `_numeric`: a finite number of a bounded range. -/
def IsNumeric (value : Option Number) : Prop := ∃ d ∈ value.bind (·.decimal?), Summable d

instance (value : Option Number) : Decidable (IsNumeric value) := inferInstanceAs (Decidable (∃ _ ∈ _, _))

/-- The precision of evidence that does not count. -/
def precisionIssues (amount : EvidenceValue) (requirePrecision : Bool) : List String :=
  match amount.absoluteError with
  | none => flagIf (requirePrecision = true) "source_precision_unknown"
  | some error =>
    flagIf (¬ IsNumeric (some error) ∨ ∃ d ∈ error.decimal?, d.signed < 0) "source_precision_invalid"

/-- Whole months of a year, of which none ends after a day. -/
def AnnualFlow (first last evaluationDate : Date) : Prop :=
  first ≤ last ∧ last ≤ evaluationDate ∧ first.day = 1 ∧ last.monthEnd ∧ Date.months first last = 12

instance (first last evaluationDate : Date) : Decidable (AnnualFlow first last evaluationDate) :=
  inferInstanceAs (Decidable (_ ∧ _))

/-- The days of evidence that does not count. -/
def dayIssues (amount : EvidenceValue) (evaluationDate : Date) (instant : Bool) : List String :=
  if instant then flagIf (¬ (amount.periodStart = none ∧ amount.periodEnd = some evaluationDate)) "incompatible_equity_date"
  else
    flagIf (¬ ∃ first ∈ amount.periodStart, ∃ last ∈ amount.periodEnd, AnnualFlow first last evaluationDate)
      "unsupported_flow_period"

/-- `evidence_issues`. -/
def evidenceIssues (amount : EvidenceValue) (basis : String) (evaluationDate : Date) (instant requirePrecision : Bool) :
    List String :=
  sortedSet (amount.flags.filter (· ∉ informational) ++ flagIf (amount.usable ≠ true) "evidence_unusable" ++
    flagIf (isDigest amount.inputHash = false) "evidence_hash_invalid" ++
    flagIf (¬ IsNumeric amount.value) "evidence_value_invalid" ++ flagIf (amount.currency ≠ "USD") "unsupported_currency" ++
    flagIf (amount.basis ≠ basis) "incompatible_evidence_basis" ++ precisionIssues amount requirePrecision ++
    dayIssues amount evaluationDate instant)

variable {amount : EvidenceValue} {basis : String} {evaluationDate : Date} {instant requirePrecision : Bool}

/-- Evidence without issues has a finite value of a bounded range. -/
theorem numeric_of_evidenceIssues (h : evidenceIssues amount basis evaluationDate instant requirePrecision = []) :
    ∃ d, amount.value = some (.finite d) ∧ Summable d := by
  simp only [evidenceIssues, sortedSet_eq_nil, List.append_eq_nil_iff, flagIf_eq_nil, not_not] at h
  obtain ⟨⟨⟨⟨⟨-, d, hd, hrange⟩, -⟩, -⟩, -⟩, -⟩ := h
  obtain ⟨number, hnumber, hdecimal⟩ := Option.bind_eq_some_iff.mp hd
  rw [Number.decimal?_eq_some] at hdecimal
  exact ⟨d, by rw [hnumber, hdecimal], hrange⟩

end EquityEval.Fundamentals
