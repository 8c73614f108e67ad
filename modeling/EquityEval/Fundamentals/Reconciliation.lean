import EquityEval.Arithmetic.Exact
import EquityEval.Fundamentals.Assembly
import EquityEval.Fundamentals.Metrics

/-!
# Accounting checks

Assets less liabilities less equity is compared with the sum of the stated uncertainties. The comparison
decides whether true amounts exist that balance and lie within the uncertainties of the reported ones.
-/

namespace EquityEval.Fundamentals

open DecimalArithmetic Gregorian PointInTime
open Discovery (sortedSet mem_sortedSet)

/-- A calculation with its tolerance and its verdict. -/
structure AccountingCheck where
  calculation : Calculation
  tolerance : Option Decimal
  isMatch : Option Bool
  ruleRevision : String := "s5-accounting-checks-v1"

/-- What keeps three balances from being checked. -/
def balanceProblems (t : Texts) (assets liabilities equity : FinancialInput) : List String :=
  let operands := [assets, liabilities, equity]
  sourceIssues t operands [.totalAssets, .totalLiabilities, .equityIncludingNoncontrollingInterests] true true ++
    flagIf (∃ source ∈ operands, source.precision = none) "accounting_precision_unknown" ++
    flagIf (∃ source ∈ [assets, liabilities], ∃ n ∈ source.value t, ∃ d ∈ n.decimal?, d.signed < 0)
      "negative_accounting_balance"

/-- The residual of three balances and their tolerance; nothing where a sum raises. -/
def residualOf (t : Texts) (operands : List FinancialInput) : Option (Decimal × Decimal) := do
  let residual ← exactSum (operands.filterMap (·.value t)) [1, -1, -1]
  let tolerance ← exactSum ((operands.filterMap (·.precision)).map fun item => .finite item.absoluteError) [1, 1, 1]
  some (residual, tolerance)

/-- The residual is within the tolerance. -/
def Reconciled (result : Decimal × Decimal) : Prop := { result.1 with negative := false } ≤ result.2

instance (result : Decimal × Decimal) : Decidable (Reconciled result) := inferInstanceAs (Decidable (_ ≤ _))

/-- `balance_sheet_identity`. -/
def balanceSheetIdentity (t : Texts) (assets liabilities equity : FinancialInput) : AccountingCheck :=
  let operands := [assets, liabilities, equity]
  let problems := balanceProblems t assets liabilities equity
  let result := if problems = [] then residualOf t operands else none
  { calculation :=
      { metricId := "balance_sheet_residual", value := result.map fun r => .finite r.1, unit := assets.unit.unitKey,
        operands := operands.map .input,
        flags := sortedSet (operands.flatMap (·.flags t) ++ problems ++
          flagIf (∃ r ∈ result, ¬ Reconciled r) "balance_sheet_identity_mismatch" ++
          flagIf (problems = [] ∧ result = none) "unsupported_numeric_range"),
        formulaRevision := "s5-accounting-checks-v1" }
    tolerance := result.map (·.2)
    isMatch := result.map fun r => decide (Reconciled r) }

/-! ### Sums within the range -/

/-- The signed terms of a sum. -/
def signedTerms (values : List Decimal) (coefficients : List ℤ) : List Decimal :=
  values.zipWith (fun value (coefficient : ℤ) => if coefficient = 1 then value else value.copyNegate) coefficients

/-- A signed term is a value or its negation. -/
theorem mem_signedTerms {values : List Decimal} {coefficients : List ℤ} {term : Decimal}
    (h : term ∈ signedTerms values coefficients) : ∃ value ∈ values, term.value = value.value ∨ term.value = -value.value := by
  induction values generalizing coefficients with
  | nil => cases h
  | cons value values ih =>
    cases coefficients with
    | nil => cases h
    | cons coefficient coefficients =>
      rcases List.mem_cons.mp h with hfirst | hrest
      · refine ⟨value, List.mem_cons_self, ?_⟩
        rw [hfirst]
        dsimp only
        split
        · exact Or.inl rfl
        · exact Or.inr (Decimal.value_copyNegate value)
      · obtain ⟨v, hv, hterm⟩ := ih hrest
        exact ⟨v, List.mem_cons_of_mem _ hv, hterm⟩

/-- The sum of at most a thousand terms ends where they all do, and has at most three digits more before. -/
theorem sum_terms_bounded {terms : List Decimal} {top bottom : ℤ} (hfew : terms.length ≤ 1000)
    (hend : ∀ term ∈ terms, ∃ m : ℤ, term.value = m * (10 : ℚ) ^ bottom)
    (hlead : ∀ term ∈ terms, |term.value| < (10 : ℚ) ^ (top + 1)) :
    (∃ m : ℤ, (terms.map Decimal.value).sum = m * (10 : ℚ) ^ bottom) ∧ |(terms.map Decimal.value).sum| < (10 : ℚ) ^ (top + 4) := by
  have hsum : ∀ l : List Decimal, (∀ term ∈ l, term ∈ terms) →
      (∃ m : ℤ, (l.map Decimal.value).sum = m * (10 : ℚ) ^ bottom) ∧
        |(l.map Decimal.value).sum| ≤ l.length * (10 : ℚ) ^ (top + 1) ∧
        (l ≠ [] → |(l.map Decimal.value).sum| < l.length * (10 : ℚ) ^ (top + 1)) := by
    intro l hl
    induction l with
    | nil => exact ⟨⟨0, by simp⟩, by simp, fun h => absurd rfl h⟩
    | cons term l ih =>
      obtain ⟨⟨m, hm⟩, hle, -⟩ := ih fun x hx => hl x (List.mem_cons_of_mem _ hx)
      obtain ⟨n, hn⟩ := hend term (hl term List.mem_cons_self)
      have hlt := hlead term (hl term List.mem_cons_self)
      have hcons : |((term :: l).map Decimal.value).sum| < (term :: l).length * (10 : ℚ) ^ (top + 1) := by
        rw [List.map_cons, List.sum_cons, List.length_cons]
        push_cast
        linarith [abs_add_le term.value (l.map Decimal.value).sum]
      refine ⟨⟨n + m, ?_⟩, hcons.le, fun _ => hcons⟩
      rw [List.map_cons, List.sum_cons, hm, hn]
      push_cast
      ring
  obtain ⟨hmultiple, -, hlt⟩ := hsum terms fun _ h => h
  refine ⟨hmultiple, ?_⟩
  have hpos : (0 : ℚ) < (10 : ℚ) ^ (top + 1) := zpow_pos (by norm_num) _
  by_cases hne : terms = []
  · subst hne
    simpa using zpow_pos (by norm_num : (0 : ℚ) < 10) (top + 4)
  have hlength : (terms.length : ℚ) ≤ 1000 := by exact_mod_cast hfew
  calc |(terms.map Decimal.value).sum| < terms.length * (10 : ℚ) ^ (top + 1) := hlt hne
    _ ≤ 1000 * (10 : ℚ) ^ (top + 1) := mul_le_mul_of_nonneg_right hlength hpos.le
    _ = 10 ^ (3 : ℤ) * (10 : ℚ) ^ (top + 1) := by norm_num
    _ = (10 : ℚ) ^ (top + 4) := by
      rw [← zpow_add₀ (by norm_num)]
      congr 1
      ring

/-- A sum of at most a thousand numbers within the range is returned. -/
theorem exactSum_isSome {values : List Decimal} {coefficients : List ℤ} (hne : values ≠ []) (hfew : values.length ≤ 1000)
    (hrange : ∀ value ∈ values, Summable value) (hlength : values.length = coefficients.length) :
    ∃ r, exactSum (values.map .finite) coefficients = some r := by
  have hvalues : (values.map Number.finite).filterMap (·.decimal?) = values := by
    rw [List.filterMap_map]
    exact List.filterMap_some
  obtain ⟨top, htop⟩ : ∃ top, (values.map (·.adjusted)).max? = some top :=
    Option.isSome_iff_exists.mp (by simpa using hne)
  obtain ⟨bottom, hbottom⟩ : ∃ bottom, (values.map (·.exponent)).min? = some bottom :=
    Option.isSome_iff_exists.mp (by simpa using hne)
  have hcondition : (∀ number ∈ values.map Number.finite, number.isFinite = true) ∧ (∀ value ∈ values, Summable value) ∧
      values.length = coefficients.length := by
    refine ⟨fun number hnumber => ?_, hrange, hlength⟩
    obtain ⟨value, -, rfl⟩ := List.mem_map.mp hnumber
    rfl
  simp only [exactSum, hvalues, if_pos hcondition, htop, hbottom, Option.bind_eq_bind, Option.bind_some]
  -- the context has room from the lowest digit to three digits above the highest one
  obtain ⟨hmem, hlowest⟩ := List.min?_eq_some_iff.mp hbottom
  obtain ⟨hmem', hhighest⟩ := List.max?_eq_some_iff.mp htop
  obtain ⟨low, hlow, rfl⟩ := List.mem_map.mp hmem
  obtain ⟨high, hhigh, rfl⟩ := List.mem_map.mp hmem'
  have hprec : 50 ≤ (sumContext high.adjusted low.exponent).prec ∧
      high.adjusted - low.exponent + 4 ≤ (sumContext high.adjusted low.exponent).prec := by
    simp only [sumContext]
    omega
  have hEmin : (sumContext high.adjusted low.exponent).Emin = -9999 := rfl
  have hEmax : (sumContext high.adjusted low.exponent).Emax = 9999 := rfl
  obtain ⟨-, hexponent, -⟩ := hrange low hlow
  obtain ⟨-, -, hadjusted⟩ := hrange high hhigh
  refine Context.foldlM_add?_of_representable rfl (by omega) fun n _ => ?_
  have hterm : ∀ term ∈ (signedTerms values coefficients).take n, (∃ m : ℤ, term.value = m * (10 : ℚ) ^ low.exponent) ∧
      |term.value| < (10 : ℚ) ^ (high.adjusted + 1) := by
    intro term hmem
    obtain ⟨value, hvalue, hsign⟩ := mem_signedTerms (List.mem_of_mem_take hmem)
    obtain ⟨m, hm⟩ := value.exists_scaled (hlowest _ (List.mem_map_of_mem hvalue))
    have hlt : |value.value| < (10 : ℚ) ^ (high.adjusted + 1) :=
      value.abs_value_lt.trans_le (zpow_le_zpow_right₀ (by norm_num) (by have := hhighest _ (List.mem_map_of_mem hvalue); omega))
    rcases hsign with hsign | hsign
    · exact ⟨⟨m, hsign.trans hm⟩, by rwa [hsign]⟩
    · exact ⟨⟨-m, by rw [hsign, hm]; push_cast; ring⟩, by rwa [hsign, abs_neg]⟩
  have hcount : ((signedTerms values coefficients).take n).length ≤ 1000 := by
    rw [List.length_take, signedTerms, List.length_zipWith]
    omega
  obtain ⟨⟨m, hm⟩, hlt⟩ := sum_terms_bounded hcount (fun term h => (hterm term h).1) fun term h => (hterm term h).2
  rw [Decimal.value_ofInt, Int.cast_zero, zero_add]
  refine ⟨Context.representable_of_lt ?_ hm hlt (by omega), hlt.trans_le (zpow_le_zpow_right₀ (by norm_num) (by omega))⟩
  rw [Context.etiny]
  omega

/-- What a sum of numbers within the range returns is the signed sum of their values, and it returns if there are at most a
thousand of them. -/
theorem exactSum_total {values : List Decimal} {coefficients : List ℤ} (hne : values ≠ []) (hrange : ∀ value ∈ values, Summable value)
    (hsigns : Signs coefficients) (hlength : values.length = coefficients.length) :
    (∀ r, exactSum (values.map .finite) coefficients = some r → r.value = signedSum coefficients (values.map Decimal.value)) ∧
      (values.length ≤ 1000 → ∃ r, exactSum (values.map .finite) coefficients = some r) :=
  ⟨fun _ h => (exactSum_exact hsigns h).2, fun hfew => exactSum_isSome hne hfew hrange hlength⟩

/-- Numbers that are a thousand places apart cancel with a zero of a large exponent between them. -/
theorem exactSum_total_sample :
    ∃ r, exactSum ([⟨false, 1, 1000⟩, ⟨false, 0, 1000⟩, ⟨false, 1, -1000⟩, ⟨false, 1, 1000⟩].map .finite) [1, -1, 1, -1] = some r ∧
      r.value = (10 : ℚ) ^ (-1000 : ℤ) := by
  have hrange : ∀ value ∈ ([⟨false, 1, 1000⟩, ⟨false, 0, 1000⟩, ⟨false, 1, -1000⟩, ⟨false, 1, 1000⟩] : List Decimal), Summable value := by
    decide
  have hsigns : Signs [1, -1, 1, -1] := by simp [Signs]
  obtain ⟨hexact, htotal⟩ := exactSum_total (by simp) hrange hsigns rfl
  obtain ⟨r, hr⟩ := htotal (by decide)
  refine ⟨r, hr, (hexact r hr).trans ?_⟩
  simp [Decimal.value, Decimal.signed]

/-! ### The verdict -/

section Verdict

variable {t : Texts} {assets liabilities equity : FinancialInput}

/-- Amounts within their errors that balance exist exactly when the residual is within the sum of the errors. -/
theorem exists_balanced {a l e errorA errorL errorE : ℝ} (ha : 0 ≤ errorA) (hl : 0 ≤ errorL) (he : 0 ≤ errorE) :
    (∃ x y z, |x - a| ≤ errorA ∧ |y - l| ≤ errorL ∧ |z - e| ≤ errorE ∧ x = y + z) ↔ |a - l - e| ≤ errorA + errorL + errorE := by
  constructor
  · rintro ⟨x, y, z, hx, hy, hz, rfl⟩
    calc |a - l - e| = |-(y + z - a) + (y - l) + (z - e)| := by ring_nf
      _ ≤ |-(y + z - a)| + |y - l| + |z - e| := abs_add_three _ _ _
      _ ≤ errorA + errorL + errorE := by
        rw [abs_neg]
        linarith
  · intro h
    -- each amount takes its share of the residual
    rcases (add_nonneg (add_nonneg ha hl) he).eq_or_lt with hzero | hpos
    · refine ⟨a, l, e, by simpa, by simpa, by simpa, ?_⟩
      rw [← hzero] at h
      linarith [abs_eq_zero.mp (le_antisymm h (abs_nonneg _))]
    · have hne : errorA + errorL + errorE ≠ 0 := hpos.ne'
      have hshare : ∀ {error : ℝ}, 0 ≤ error → |(a - l - e) / (errorA + errorL + errorE) * error| ≤ error := by
        intro error herror
        rw [abs_mul, abs_div, abs_of_pos hpos, abs_of_nonneg herror]
        exact mul_le_of_le_one_left herror ((div_le_one hpos).mpr h)
      refine ⟨a - (a - l - e) / (errorA + errorL + errorE) * errorA, l + (a - l - e) / (errorA + errorL + errorE) * errorL,
        e + (a - l - e) / (errorA + errorL + errorE) * errorE, ?_, ?_, ?_, ?_⟩
      · rw [sub_sub_cancel_left, abs_neg]
        exact hshare ha
      · rw [add_sub_cancel_left]
        exact hshare hl
      · rw [add_sub_cancel_left]
        exact hshare he
      · field_simp
        ring

/-- Three balances without problems report their amounts and their uncertainties. -/
theorem reported_of_balanceProblems (h : balanceProblems t assets liabilities equity = []) :
    ∀ source ∈ [assets, liabilities, equity], source.blockingFlags t = [] ∧
      source.value t = some (.finite (source.amount t)) ∧ ∃ precision, source.precision = some precision := by
  simp only [balanceProblems, sourceIssues, List.append_eq_nil_iff, flagIf_eq_nil, not_exists, not_and] at h
  obtain ⟨⟨⟨⟨⟨⟨hselection, -⟩, -⟩, -⟩, -⟩, hprecision⟩, -⟩ := h
  intro source hsource
  have hblocking := blockingFlags_of_selectionIssues hselection source hsource
  exact ⟨hblocking, value_eq_amount hblocking, Option.ne_none_iff_exists'.mp (hprecision source hsource)⟩

/-- The numbers of an exact sum lie within its range. -/
theorem summable_of_exactSum {values : List Decimal} {coefficients : List ℤ} {r : Decimal}
    (h : exactSum (values.map .finite) coefficients = some r) : ∀ value ∈ values, Summable value := by
  have hvalues : (values.map Number.finite).filterMap (·.decimal?) = values := by
    rw [List.filterMap_map]
    exact List.filterMap_some
  simp only [exactSum, hvalues] at h
  split at h
  case isTrue hrange => exact hrange.2.1
  case isFalse => cases h

/-- The residual of balances without problems is that of their amounts and their uncertainties. -/
theorem residualOf_eq (h : balanceProblems t assets liabilities equity = []) :
    residualOf t [assets, liabilities, equity] =
      (exactSum ([assets.amount t, liabilities.amount t, equity.amount t].map .finite) [1, -1, -1]).bind fun residual =>
        (exactSum ([assets.uncertainty, liabilities.uncertainty, equity.uncertainty].map .finite) [1, 1, 1]).bind
          fun tolerance => some (residual, tolerance) := by
  have hreported := reported_of_balanceProblems h
  simp only [List.mem_cons, List.not_mem_nil, or_false, forall_eq_or_imp, forall_eq] at hreported
  obtain ⟨⟨-, ha, pa, hpa⟩, ⟨-, hl, pl, hpl⟩, -, he, pe, hpe⟩ := hreported
  simp [residualOf, ha, hl, he, hpa, hpl, hpe, FinancialInput.uncertainty]

/-- The residual and the tolerance of balances without problems are exact. -/
theorem residualOf_exact (h : balanceProblems t assets liabilities equity = []) {result : Decimal × Decimal}
    (hresult : residualOf t [assets, liabilities, equity] = some result) :
    result.1.value = (assets.amount t).value - (liabilities.amount t).value - (equity.amount t).value ∧
      result.2.value = assets.uncertainty.value + liabilities.uncertainty.value + equity.uncertainty.value := by
  rw [residualOf_eq h] at hresult
  simp only [Option.bind_eq_some_iff] at hresult
  obtain ⟨residual, hresidual, tolerance, htolerance, hpair⟩ := hresult
  cases hpair
  obtain ⟨-, hresidual⟩ := exactSum_exact (by simp [Signs]) hresidual
  obtain ⟨-, htolerance⟩ := exactSum_exact (by simp [Signs]) htolerance
  refine ⟨?_, ?_⟩
  · rw [hresidual]
    simp only [List.map_cons, List.map_nil, signedSum_cons, signedSum_nil]
    push_cast
    ring
  · rw [htolerance]
    simp only [List.map_cons, List.map_nil, signedSum_cons, signedSum_nil]
    push_cast
    ring

/-- The balances and their uncertainties lie within the range of sums. -/
def InRange (t : Texts) (operands : List FinancialInput) : Prop :=
  ∀ source ∈ operands, Summable (source.amount t) ∧ Summable source.uncertainty

/-- Balances without problems have a residual exactly when they lie within the range. -/
theorem residualOf_isSome (h : balanceProblems t assets liabilities equity = []) :
    (∃ result, residualOf t [assets, liabilities, equity] = some result) ↔ InRange t [assets, liabilities, equity] := by
  rw [residualOf_eq h]
  simp only [Option.bind_eq_some_iff, InRange, List.mem_cons, List.not_mem_nil, or_false, forall_eq_or_imp, forall_eq]
  constructor
  · rintro ⟨_, residual, hresidual, tolerance, htolerance, -⟩
    have hamounts := summable_of_exactSum hresidual
    have huncertainties := summable_of_exactSum htolerance
    simp only [List.mem_cons, List.not_mem_nil, or_false, forall_eq_or_imp, forall_eq] at hamounts huncertainties
    exact ⟨⟨hamounts.1, huncertainties.1⟩, ⟨hamounts.2.1, huncertainties.2.1⟩, hamounts.2.2, huncertainties.2.2⟩
  · rintro ⟨⟨ha, ha'⟩, ⟨hl, hl'⟩, he, he'⟩
    obtain ⟨residual, hresidual⟩ : ∃ r, exactSum ([assets.amount t, liabilities.amount t, equity.amount t].map .finite) [1, -1, -1] =
        some r := exactSum_isSome (by simp) (by simp) (by simp [ha, hl, he]) rfl
    obtain ⟨tolerance, htolerance⟩ : ∃ r, exactSum ([assets.uncertainty, liabilities.uncertainty, equity.uncertainty].map .finite)
        [1, 1, 1] = some r := exactSum_isSome (by simp) (by simp) (by simp [ha', hl', he']) rfl
    exact ⟨_, residual, hresidual, tolerance, htolerance, rfl⟩

/-- A residual within the tolerance is no larger in magnitude. -/
theorem reconciled_iff {result : Decimal × Decimal} : Reconciled result ↔ |result.1.value| ≤ result.2.value := by
  have habs : ({ result.1 with negative := false } : Decimal).value = |result.1.value| := by
    rw [Decimal.abs_value]
    simp [Decimal.value, Decimal.signed]
  rw [Reconciled, Decimal.le_iff_value, habs]

/-- A flag is raised where its condition holds. -/
theorem mem_flagIf {p : Prop} [Decidable p] {flag name : String} : flag ∈ flagIf p name ↔ p ∧ flag = name := by
  rw [flagIf]
  split <;> simp [*]

/-- The range is flagged as unsupported where balances without problems have no residual. -/
theorem unsupported_iff (h : balanceProblems t assets liabilities equity = []) :
    "unsupported_numeric_range" ∈ (balanceSheetIdentity t assets liabilities equity).calculation.flags ↔
      residualOf t [assets, liabilities, equity] = none := by
  have hsources : "unsupported_numeric_range" ∉ [assets, liabilities, equity].flatMap (·.flags t) := by
    intro hmem
    obtain ⟨source, hsource, hflag⟩ := List.mem_flatMap.mp hmem
    exact FinancialInput.not_mem_of_blockingFlags (reported_of_balanceProblems h source hsource).1 _ (by decide) hflag
  simp only [balanceSheetIdentity, mem_sortedSet, List.mem_append, h, if_true, true_and, hsources, List.not_mem_nil, false_or,
    or_false, mem_flagIf]
  constructor
  · rintro (⟨-, hname⟩ | ⟨hnone, -⟩)
    · exact absurd hname (by decide)
    · exact hnone
  · exact fun hnone => Or.inr ⟨hnone, trivial⟩

/-- The stated uncertainty of a source is not negative. -/
theorem uncertainty_nonneg (source : FinancialInput) : 0 ≤ source.uncertainty.value := by
  cases h : source.precision with
  | none => simp [FinancialInput.uncertainty, h]
  | some precision =>
    have hnonneg : (0 : ℚ) ≤ precision.absoluteError.signed := by exact_mod_cast precision.nonnegative
    simp only [FinancialInput.uncertainty, h, Option.map_some, Option.getD_some]
    exact mul_nonneg hnonneg (zpow_nonneg (by norm_num) _)

/-- A source admits the amounts within its uncertainty of the reported one. -/
theorem admits_iff {source : FinancialInput} {precision : PrecisionEvidence} (h : source.precision = some precision) {truth : ℝ} :
    source.Admits t truth ↔ |truth - (source.amount t).value| ≤ source.uncertainty.value := by
  simp [FinancialInput.Admits, FinancialInput.uncertainty, h]

/-- The residual is within the tolerance exactly when true amounts balance. -/
theorem reconciled_iff_exists (h : balanceProblems t assets liabilities equity = []) {result : Decimal × Decimal}
    (hresult : residualOf t [assets, liabilities, equity] = some result) :
    |result.1.value| ≤ result.2.value ↔
      ∃ x y z : ℝ, assets.Admits t x ∧ liabilities.Admits t y ∧ equity.Admits t z ∧ x = y + z := by
  obtain ⟨hresidual, htolerance⟩ := residualOf_exact h hresult
  have hreported := reported_of_balanceProblems h
  simp only [List.mem_cons, List.not_mem_nil, or_false, forall_eq_or_imp, forall_eq] at hreported
  obtain ⟨⟨-, -, pa, hpa⟩, ⟨-, -, pl, hpl⟩, -, -, pe, hpe⟩ := hreported
  have hnonneg : ∀ source : FinancialInput, (0 : ℝ) ≤ source.uncertainty.value := fun source => by
    exact_mod_cast uncertainty_nonneg source
  simp only [admits_iff hpa, admits_iff hpl, admits_iff hpe]
  rw [exists_balanced (hnonneg assets) (hnonneg liabilities) (hnonneg equity), hresidual, htolerance]
  exact_mod_cast Iff.rfl

/-- The verdict on three balances decides whether true amounts balance; there is none exactly where a problem or the
range is flagged, and then there is neither a residual nor a tolerance. -/
theorem balance_decided (t : Texts) (assets liabilities equity : FinancialInput) :
    (balanceProblems t assets liabilities equity = [] →
      "unsupported_numeric_range" ∉ (balanceSheetIdentity t assets liabilities equity).calculation.flags →
      ((balanceSheetIdentity t assets liabilities equity).isMatch = some true ↔
        ∃ x y z : ℝ, assets.Admits t x ∧ liabilities.Admits t y ∧ equity.Admits t z ∧ x = y + z)) ∧
    ((balanceSheetIdentity t assets liabilities equity).isMatch = none ↔ balanceProblems t assets liabilities equity ≠ [] ∨
      "unsupported_numeric_range" ∈ (balanceSheetIdentity t assets liabilities equity).calculation.flags) ∧
    ((balanceSheetIdentity t assets liabilities equity).isMatch = none →
      (balanceSheetIdentity t assets liabilities equity).calculation.value = none ∧
        (balanceSheetIdentity t assets liabilities equity).tolerance = none) ∧
    (balanceProblems t assets liabilities equity = [] →
      ("unsupported_numeric_range" ∈ (balanceSheetIdentity t assets liabilities equity).calculation.flags ↔
        ¬ InRange t [assets, liabilities, equity])) := by
  by_cases h : balanceProblems t assets liabilities equity = []
  -- a problem leaves nothing
  case neg =>
    have hmatch : (balanceSheetIdentity t assets liabilities equity).isMatch = none := by simp [balanceSheetIdentity, h]
    exact ⟨fun hnone => absurd hnone h, ⟨fun _ => Or.inl h, fun _ => hmatch⟩, fun _ => by simp [balanceSheetIdentity, h],
      fun hnone => absurd hnone h⟩
  case pos =>
    have hunsupported := unsupported_iff h
    have hrange := residualOf_isSome h
    cases hresult : residualOf t [assets, liabilities, equity] with
    | none =>
      rw [hresult] at hunsupported hrange
      have hmatch : (balanceSheetIdentity t assets liabilities equity).isMatch = none := by
        simp [balanceSheetIdentity, h, hresult]
      have hflag := hunsupported.mpr rfl
      refine ⟨fun _ hnot => absurd hflag hnot, ⟨fun _ => Or.inr hflag, fun _ => hmatch⟩, fun _ => by
        simp [balanceSheetIdentity, h, hresult], fun _ => ⟨fun _ hin => ?_, fun _ => hflag⟩⟩
      obtain ⟨_, hsome⟩ := hrange.mpr hin
      cases hsome
    | some result =>
      rw [hresult] at hunsupported hrange
      have hmatch : (balanceSheetIdentity t assets liabilities equity).isMatch = some (decide (Reconciled result)) := by
        simp [balanceSheetIdentity, h, hresult]
      have hnoflag : "unsupported_numeric_range" ∉ (balanceSheetIdentity t assets liabilities equity).calculation.flags :=
        fun hflag => by cases hunsupported.mp hflag
      refine ⟨fun _ _ => ?_, ⟨fun hnone => ?_, fun hor => ?_⟩, fun hnone => ?_, fun _ => ⟨fun hflag => absurd hflag hnoflag, fun hout => ?_⟩⟩
      · rw [hmatch, Option.some.injEq, decide_eq_true_eq, reconciled_iff]
        exact reconciled_iff_exists h hresult
      · rw [hmatch] at hnone
        cases hnone
      · exact (hor.elim (fun hne => hne h) hnoflag).elim
      · rw [hmatch] at hnone
        cases hnone
      · exact absurd (hrange.mp ⟨result, rfl⟩) hout


end Verdict

/-- A balance at the end of 2024, with its uncertainty. -/
def sampleBalance (concept : Concept) (observation : ℕ) (amount : Decimal) (error : ℕ) : FinancialInput where
  selection :=
    { query := { sampleQuery with statementFamily := .balanceSheet, concepts := [concept], pinned := by simp [sampleQuery] }
      coverageIds := [8], filingVersionIds := [9], flags := [], qualityFlagIds := [], eventIds := [], usableForValuation := true,
      reportingBasis := some "us_gaap", inputHash := sampleDigest 'a',
      facts := [
        { concept := concept, value := some (.finite amount), status := .observed, resolutionIds := [10],
          observationIds := [observation], accession := some "0000000001-24-000001", filedDate := some 19900,
          sourceUrl := some "https://sec.gov/filing", sourceLocator := some "row", captureIds := [6],
          sourceHashes := [sampleDigest 'b'], sourceTag := some "us-gaap:Assets", originalNumericText := some "1",
          transformJson := some "\x7b\x7d", flags := [] }] }
  concept := concept
  period :=
    { id := 2, periodKind := .instant, startDate := none,
      endDate := ⟨2024, 12, 31, Date.inYears_2024, Date.inMonths_12, Date.inDays_2024_12_31⟩ }
  unit := { id := 4, unitKey := "USD", numeratorMeasures := ["iso4217:USD"], denominatorMeasures := [] }
  scope :=
    { id := 3, issuerId := 1, instrumentId := none, scopeKind := "consolidated", descriptorSchemaVersion := 1,
      descriptorJson := sampleDescriptor, contentSha256 := "ddbd5d9d3d1987a3240adff3f8b7b91b4260cb015986f7a9f90d6557ef180de9" }
  precision := some (samplePrecision observation error)

/-- Balances that are off by one, with uncertainties that add up to three, balance for some true amounts. -/
theorem balance_decided_sample : ∃ x y z : ℝ,
    (sampleBalance .totalAssets 11 ⟨false, 300, 0⟩ 1).Admits sampleTexts x ∧
    (sampleBalance .totalLiabilities 12 ⟨false, 199, 0⟩ 1).Admits sampleTexts y ∧
    (sampleBalance .equityIncludingNoncontrollingInterests 13 ⟨false, 100, 0⟩ 1).Admits sampleTexts z ∧ x = y + z := by
  have hrun :
      let assets := sampleBalance .totalAssets 11 ⟨false, 300, 0⟩ 1
      let liabilities := sampleBalance .totalLiabilities 12 ⟨false, 199, 0⟩ 1
      let equity := sampleBalance .equityIncludingNoncontrollingInterests 13 ⟨false, 100, 0⟩ 1
      balanceProblems sampleTexts assets liabilities equity = [] ∧
        "unsupported_numeric_range" ∉ (balanceSheetIdentity sampleTexts assets liabilities equity).calculation.flags ∧
        (balanceSheetIdentity sampleTexts assets liabilities equity).isMatch = some true := by
    decide +kernel
  exact ((balance_decided sampleTexts _ _ _).1 hrun.1 hrun.2.1).mp hrun.2.2

/-- Balances without problems that balance exactly have no verdict where they lie beyond the range of sums. -/
theorem balanced_without_verdict : ¬ ∀ (t : Texts) (assets liabilities equity : FinancialInput),
    balanceProblems t assets liabilities equity = [] →
      ((balanceSheetIdentity t assets liabilities equity).isMatch = some true ↔
        ∃ x y z : ℝ, assets.Admits t x ∧ liabilities.Admits t y ∧ equity.Admits t z ∧ x = y + z) := by
  intro hall
  have hrun :
      let assets := sampleBalance .totalAssets 11 ⟨false, 3, 1001⟩ 0
      let liabilities := sampleBalance .totalLiabilities 12 ⟨false, 2, 1001⟩ 0
      let equity := sampleBalance .equityIncludingNoncontrollingInterests 13 ⟨false, 1, 1001⟩ 0
      balanceProblems sampleTexts assets liabilities equity = [] ∧ assets.amount sampleTexts = ⟨false, 3, 1001⟩ ∧
        liabilities.amount sampleTexts = ⟨false, 2, 1001⟩ ∧ equity.amount sampleTexts = ⟨false, 1, 1001⟩ ∧
        (balanceSheetIdentity sampleTexts assets liabilities equity).isMatch ≠ some true := by
    decide +kernel
  obtain ⟨hproblems, hassets, hliabilities, hequity, hverdict⟩ := hrun
  have hsum : ∀ e, ((⟨false, 3, e⟩ : Decimal).value : ℝ) = (⟨false, 2, e⟩ : Decimal).value + (⟨false, 1, e⟩ : Decimal).value := by
    intro e
    simp only [Decimal.value, Decimal.signed, Bool.false_eq_true, if_false]
    push_cast
    ring
  have hadmits : ∀ (source : FinancialInput) (precision : PrecisionEvidence) (d : Decimal), source.precision = some precision →
      source.amount sampleTexts = d → source.Admits sampleTexts d.value := by
    intro source precision d hprecision hamount
    rw [admits_iff hprecision, hamount, sub_self, abs_zero]
    exact_mod_cast uncertainty_nonneg source
  exact hverdict ((hall sampleTexts _ _ _ hproblems).mpr ⟨_, _, _, hadmits _ _ _ rfl hassets, hadmits _ _ _ rfl hliabilities,
    hadmits _ _ _ rfl hequity, hsum 1001⟩)

end EquityEval.Fundamentals
