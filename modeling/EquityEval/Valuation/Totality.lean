import Mathlib.Data.Int.Log
import EquityEval.Arithmetic.Magnitude
import EquityEval.Valuation.RoundTrip

/-!
# The forward model returns

The numbers of an accepted forecast span at most 101 digits above the point and 179 below it. Every number that the
forward model computes from them spans a range that the context has room for, and no divisor is zero, so that the
forward model returns for every accepted forecast.
-/

namespace EquityEval.Valuation

open DecimalArithmetic DecimalArithmetic.Context

/-- Powers of a base of at least one return, up to one unit in the last place. -/
structure PowerLaw (power : Decimal → ℕ → Except DecimalException Decimal) : Prop where
  returns : ∀ base n, 1 ≤ base.value → 0 < n → base.value ^ n < (10 : ℚ) ^ context.Emax →
    Returns (power base n) fun r => |r.value - base.value ^ n| ≤ base.value ^ n * (10 : ℚ) ^ (1 - (context.prec : ℤ))

/-- The model's context has room for a range. -/
theorem context_room {top unit : ℤ} (htop : top < 9999) (hlow : -10078 ≤ top) (hunit : -10078 ≤ unit) : context.Room top unit :=
  ⟨htop, hlow, hunit⟩

/-- The precision is positive. -/
theorem context_prec : 0 < context.prec := by decide

/-- The exponent range is not empty. -/
theorem context_range : context.Emin < context.Emax := by decide

section

variable {power : Decimal → ℕ → Except DecimalException Decimal} {f : ForecastOf Decimal}

/-- A number of an accepted forecast spans the digits that its check allows. -/
theorem ForecastOf.Domain.spans (h : f.Domain) {v : Decimal} (hv : v ∈ f.numbers) : Spans 101 (-179) v.value := by
  obtain ⟨hadjusted, hdigits⟩ := h.bounded v hv
  have hbounds := abs_le.mp hadjusted
  have hexponent : v.exponent = v.adjusted - v.digits + 1 := by
    unfold Decimal.adjusted
    ring
  exact v.spans.mono (by omega) (by omega)

/-- One spans the same digits. -/
theorem one_spans : Spans 101 (-179) (Decimal.ofInt 1).value :=
  (Decimal.spans (.ofInt 1)).mono (by decide) (by decide)

/-- What the check of a forecast says about the inputs of a year. -/
structure YearDomain (y : Year Decimal) : Prop where
  growth : Spans 101 (-179) y.growth.value
  growth_gt : -1 < y.growth.value
  margin : Spans 101 (-179) y.margin.value
  tax : Spans 101 (-179) y.tax.value
  k : Spans 101 (-179) y.k.value

/-- The years of an accepted forecast are within its domain. -/
theorem ForecastOf.Domain.years (h : f.Domain) : ∀ y ∈ f.years, YearDomain y := by
  intro y hy
  obtain ⟨q, hq, rfl⟩ := List.mem_map.mp hy
  obtain ⟨hleft, hright⟩ := List.of_mem_zip (a := q.1) (b := q.2) hq
  obtain ⟨hgrowth, hmargin⟩ := List.of_mem_zip (a := q.1.1) (b := q.1.2) hleft
  obtain ⟨htax, hk⟩ := List.of_mem_zip (a := q.2.1) (b := q.2.2) hright
  exact
    { growth := h.spans (by simp [ForecastOf.numbers, hgrowth])
      growth_gt := h.growth _ hgrowth
      margin := h.spans (by simp [ForecastOf.numbers, hmargin])
      tax := h.spans (by simp [ForecastOf.numbers, htax])
      k := h.spans (by simp [ForecastOf.numbers, hk]) }

/-! ### Discount factors -/

/-- The factor of one year of discount returns and is at least one. -/
theorem rate_returns (h : f.Domain) : Returns (context.add (.ofInt 1) f.wacc) fun rate =>
    1 ≤ rate.value ∧ rate.value ≤ (10 : ℚ) ^ (102 : ℕ) := by
  have hwacc : Spans 101 (-179) f.wacc.value := h.spans (by simp [ForecastOf.numbers])
  refine (add_returns context_prec context_range (context_room (by norm_num) (by norm_num) (by norm_num)) one_spans hwacc).mono ?_
  rintro rate ⟨hrounds, hspans⟩
  have hone : context.Representable ((10 : ℚ) ^ (0 : ℤ)) := representable_ten context_prec (by decide)
  rw [zpow_zero] at hone
  refine ⟨hrounds.ge_of_ge 1 hone ?_, (le_abs_self _).trans ?_⟩
  · rw [Decimal.value_ofInt]
    have := h.wacc_pos
    push_cast
    linarith
  · have hle := hspans.le
    norm_num at hle ⊢
    exact hle

/-- The discount factor of a year returns, between a tenth and ten to the power of 1021. -/
theorem discount_returns (hpower : PowerLaw power) {rate : Decimal} (hone : 1 ≤ rate.value)
    (hrate : rate.value ≤ (10 : ℚ) ^ (102 : ℕ)) {year : ℕ} (hyear : 0 < year) (hyears : year ≤ 10) :
    Returns (power rate year) fun d => (10 : ℚ) ^ (-1 : ℤ) ≤ |d.value| ∧ |d.value| ≤ (10 : ℚ) ^ (1021 : ℤ) ∧ 0 < d.value := by
  have hleast : 1 ≤ rate.value ^ year := one_le_pow₀ hone
  have hmost : rate.value ^ year ≤ (10 : ℚ) ^ (1020 : ℕ) :=
    calc rate.value ^ year ≤ ((10 : ℚ) ^ (102 : ℕ)) ^ year := pow_le_pow_left₀ (zero_le_one.trans hone) hrate year
      _ = (10 : ℚ) ^ (102 * year) := (pow_mul _ _ _).symm
      _ ≤ (10 : ℚ) ^ (1020 : ℕ) := pow_le_pow_right₀ (by norm_num) (by omega)
  have hroom : (10 : ℚ) ^ (1020 : ℕ) < (10 : ℚ) ^ context.Emax := by
    rw [← zpow_natCast]
    exact zpow_lt_zpow_right₀ (by norm_num) (by decide)
  refine (hpower.returns rate year hone hyear (hmost.trans_lt hroom)).mono fun d herror => ?_
  -- one unit in the last place is far less than a tenth
  have hunit : (10 : ℚ) ^ (1 - (context.prec : ℤ)) ≤ 10 ^ (-1 : ℤ) := ten_zpow_le (by decide)
  have htenth : (10 : ℚ) ^ (-1 : ℤ) = 1 / 10 := by norm_num
  have hsmall : rate.value ^ year * (10 : ℚ) ^ (1 - (context.prec : ℤ)) ≤ rate.value ^ year * (1 / 10) :=
    mul_le_mul_of_nonneg_left (htenth ▸ hunit) (zero_le_one.trans hleast)
  obtain ⟨hlow, hhigh⟩ := abs_le.mp (herror.trans hsmall)
  have hpos : 1 / 10 ≤ d.value := by linarith
  have hten : (10 : ℚ) ^ (1021 : ℤ) = 10 ^ (1020 : ℕ) * 10 := by
    rw [← zpow_natCast, ← zpow_add_one₀ (by norm_num)]
    rfl
  have hhuge : (0 : ℚ) < 10 ^ (1020 : ℕ) := pow_pos (by norm_num) _
  rw [abs_of_pos (by linarith), htenth, hten]
  generalize (10 : ℚ) ^ (1020 : ℕ) = most at hmost hhuge
  exact ⟨hpos, by linarith, by linarith⟩

/-! ### Years -/

@[simp] theorem forward_const (d : Decimal) : (forward power).const d = d := rfl

@[simp] theorem forward_add : (forward power).add = context.add := rfl

@[simp] theorem forward_sub : (forward power).sub = context.sub := rfl

@[simp] theorem forward_mul : (forward power).mul = context.mul := rfl

@[simp] theorem forward_div : (forward power).div = context.div := rfl

@[simp] theorem forward_power : (forward power).power = power := rfl

@[simp] theorem forward_positive (d : Decimal) :
    (forward power).positive d = pure (Decimal.maximum d (.ofInt 0)) := rfl

/-- The positive part of a number spans what the number does. -/
theorem spans_maximum {top unit : ℤ} {d : Decimal} (h : Spans top unit d.value) :
    Spans top unit (Decimal.maximum d (.ofInt 0)).value := by
  rw [Decimal.value_maximum]
  rcases max_choice d.value (Decimal.ofInt 0).value with hmax | hmax <;> rw [hmax]
  · exact h
  · exact ⟨by simp [(ten_zpow_pos top).le], 0, by simp⟩

/-- The revenue of a year is positive and the year's value spans a known range, when the revenue before it does. -/
theorem forecastRow_returns (hpower : PowerLaw power) (h : f.Domain) {i : ℕ} (hi : i < 10) {revenue : Decimal}
    (hpos : 0 < revenue.value) (hrevenue : Spans (101 + 102 * i) (-179 * (i + 1)) revenue.value) {y : Year Decimal}
    (hy : YearDomain y) : Returns (forecastRow (forward power) f.wacc (i + 1) revenue y) fun row =>
      0 < row.revenue.value ∧ Spans (101 + 102 * (i + 1 : ℕ)) (-179 * ((i + 1 : ℕ) + 1)) row.revenue.value ∧
        Spans 1326 (-3427) row.pv.value := by
  have hlast : (i : ℤ) ≤ 9 := by omega
  unfold forecastRow
  simp only [forward_const, forward_add, forward_sub, forward_mul, forward_div, forward_power, forward_positive, pure_bind]
  refine (add_returns context_prec context_range (context_room (by norm_num) (by norm_num) (by norm_num)) one_spans
    hy.growth).bind fun factor _ hfactor => ?_
  have hgrowth : 0 < factor.value :=
    hfactor.1.pos context_prec (context_room (by norm_num) (by norm_num) (by norm_num)) (one_spans.add hy.growth)
      (by rw [Decimal.value_ofInt]; have := hy.growth_gt; push_cast; linarith)
  refine (mul_returns context_prec context_range (context_room (by omega) (by omega) (by omega)) hrevenue hfactor.2).bind
    fun next _ hnext => ?_
  have hnextPos : 0 < next.value :=
    hnext.1.pos context_prec (context_room (by omega) (by omega) (by omega)) (hrevenue.mul hfactor.2) (mul_pos hpos hgrowth)
  have hnextSpans : Spans (101 + 102 * (i + 1 : ℕ)) (-179 * ((i + 1 : ℕ) + 1)) next.value :=
    hnext.2.mono (by push_cast; omega) (by push_cast; omega)
  have hwide : Spans 1121 (-1969) next.value := hnext.2.mono (by omega) (by omega)
  refine (mul_returns context_prec context_range (context_room (by norm_num) (by norm_num) (by norm_num)) hwide
    hy.margin).bind fun ebit _ hebit => ?_
  refine (mul_returns context_prec context_range (context_room (by norm_num) (by norm_num) (by norm_num))
    (spans_maximum hebit.2) hy.tax).bind fun cashTax _ hcashTax => ?_
  refine (sub_returns context_prec context_range (context_room (by norm_num) (by norm_num) (by norm_num))
    (hebit.2.mono (by norm_num) (by norm_num)) hcashTax.2).bind fun nopat _ hnopat => ?_
  refine (mul_returns context_prec context_range (context_room (by norm_num) (by norm_num) (by norm_num)) hwide
    hy.k).bind fun reinvestment _ hreinvestment => ?_
  refine (sub_returns context_prec context_range (context_room (by norm_num) (by norm_num) (by norm_num)) hnopat.2
    (hreinvestment.2.mono (by norm_num) (by norm_num))).bind fun fcff _ hfcff => ?_
  refine (rate_returns h).bind fun rate _ hrate => ?_
  refine (discount_returns hpower hrate.1 hrate.2 (Nat.succ_pos i) (by omega)).bind fun discount _ hdiscount => ?_
  refine (div_returns context_prec context_range (context_room (by norm_num) (by norm_num) (by decide)) hfcff.2 hdiscount.1
    hdiscount.2.1).bind fun pv _ hpv => ?_
  exact returns_pure ⟨hnextPos, hnextSpans, hpv.2.mono (by norm_num) (by decide)⟩

/-- What the rows of a forecast promise: positive revenues and values that span a known range. -/
def RowsDomain (rows : List (ForecastRow Decimal)) : Prop :=
  ∀ row ∈ rows, 0 < row.revenue.value ∧ Spans 1326 (-3427) row.pv.value

/-- The rows of at most ten years return. -/
theorem forecastRows_returns (hpower : PowerLaw power) (h : f.Domain) {ys : List (Year Decimal)} (hys : ∀ y ∈ ys, YearDomain y)
    {i : ℕ} (hi : i + ys.length ≤ 10) {revenue : Decimal} (hpos : 0 < revenue.value)
    (hrevenue : Spans (101 + 102 * i) (-179 * (i + 1)) revenue.value) :
    Returns (forecastRows (forward power) f.wacc (i + 1) revenue ys) fun result =>
      (0 < result.1.value ∧ Spans 1121 (-1969) result.1.value) ∧ result.2.length = ys.length ∧ RowsDomain result.2 := by
  induction ys generalizing i revenue with
  | nil =>
    have hle : (i : ℤ) ≤ 10 := by exact_mod_cast hi
    exact returns_pure ⟨⟨hpos, hrevenue.mono (by omega) (by omega)⟩, rfl, by simp [RowsDomain]⟩
  | cons y rest ih =>
    obtain ⟨hy, hrest⟩ := List.forall_mem_cons.mp hys
    rw [List.length_cons] at hi
    unfold forecastRows
    refine (forecastRow_returns hpower h (by omega) hpos hrevenue hy).bind fun row _ hrow => ?_
    refine (ih hrest (by omega) hrow.1 hrow.2.1).bind fun result _ hresult => ?_
    exact returns_pure ⟨hresult.1, by simp [hresult.2.1], List.forall_mem_cons.mpr ⟨⟨hrow.1, hrow.2.2⟩, hresult.2.2⟩⟩

/-! ### The forward model -/

/-- The sum of at most ten values of a range returns. -/
theorem sum_returns {top unit : ℤ} (htop : -10078 ≤ top) (hunit : -10078 ≤ unit) {values : List Decimal}
    (hvalues : ∀ v ∈ values, Spans top unit v.value) {start : Decimal} (hstart : Spans top unit start.value)
    (hroom : top + values.length < 9999) :
    Returns (values.foldlM context.add start) fun total => Spans (top + values.length) unit total.value := by
  induction values generalizing top start with
  | nil => exact returns_pure (by simpa using hstart)
  | cons v rest ih =>
    obtain ⟨hv, hrest⟩ := List.forall_mem_cons.mp hvalues
    rw [List.length_cons] at hroom ⊢
    push_cast at hroom ⊢
    rw [List.foldlM_cons]
    refine (add_returns context_prec context_range (context_room (by omega) (by omega) hunit) hstart hv).bind fun next _ hnext => ?_
    have htop' : -10078 ≤ top + 1 := by omega
    have hall := ih htop' (fun w hw => (hrest w hw).mono (by omega) le_rfl) hnext.2 (by omega)
    rwa [show top + 1 + (rest.length : ℤ) = top + (rest.length + 1) by ring] at hall

/-- The difference of the discount and growth rates returns and is not zero. -/
theorem spread_returns (h : f.Domain) : Returns (context.sub f.wacc f.terminalGrowth) fun spread =>
    0 < spread.value ∧ Spans 102 (-179) spread.value := by
  have hwacc : Spans 101 (-179) f.wacc.value := h.spans (by simp [ForecastOf.numbers])
  have hgrowth : Spans 101 (-179) f.terminalGrowth.value := h.spans (by simp [ForecastOf.numbers])
  have hroom : context.Room (101 + 1) (-179) := context_room (by norm_num) (by norm_num) (by norm_num)
  refine (sub_returns context_prec context_range hroom hwacc hgrowth).mono ?_
  rintro spread ⟨hrounds, hspans⟩
  refine ⟨hrounds.pos context_prec hroom ?_ (sub_pos.mpr h.terminalGrowth_lt_wacc), hspans⟩
  rw [sub_eq_add_neg]
  exact hwacc.add hgrowth.neg

/-- What an evaluation of the forward model promises. -/
structure Evaluated (f : ForecastOf Decimal) (e : Evaluation Decimal) : Prop where
  rows : e.rows.length = f.years.length
  revenue : ∀ row ∈ e.rows, 0 < row.revenue.value
  ratio : e.terminalContribution ≠ none → e.operatingEv.value ≠ 0
  sum : context.add e.pvExplicit e.pvTerminal = .ok e.operatingEv

/-- The forward model returns for at most ten years of an accepted forecast. -/
theorem evaluate_returns (hpower : PowerLaw power) (h : f.Domain) (hlength : f.years.length ≤ 10) (hsome : 0 < f.years.length) :
    Returns (evaluate (forward power) f) (Evaluated f) := by
  have hterminal : ∀ v ∈ [f.terminalGrowth, f.terminalMargin, f.terminalTax, f.terminalRoic, f.revenueAnchor],
      Spans 101 (-179) v.value := by
    intro v hv
    refine h.spans ?_
    simp only [List.mem_cons, List.not_mem_nil, or_false] at hv
    rcases hv with rfl | rfl | rfl | rfl | rfl <;> simp [ForecastOf.numbers]
  simp only [List.forall_mem_cons, List.not_mem_nil, false_implies, implies_true, and_true] at hterminal
  obtain ⟨hgrowth, hmargin, htax, hroic, hanchor⟩ := hterminal
  unfold evaluate
  simp only [forward_const, forward_add, forward_sub, forward_mul, forward_div, forward_power]
  refine (forecastRows_returns hpower h h.years (i := 0) (by omega) h.anchor_pos (by simpa using hanchor)).bind
    fun ⟨revenue, rows⟩ _ ⟨⟨_, hrevenue⟩, hrows, hvalues⟩ => ?_
  dsimp only at hrevenue hrows hvalues ⊢
  refine (add_returns context_prec context_range (context_room (by norm_num) (by norm_num) (by norm_num)) one_spans
    hgrowth).bind fun factor _ hfactor => ?_
  refine (mul_returns context_prec context_range (context_room (by norm_num) (by norm_num) (by norm_num)) hrevenue
    hfactor.2).bind fun tr _ htr => ?_
  refine (mul_returns context_prec context_range (context_room (by norm_num) (by norm_num) (by norm_num)) htr.2
    hmargin).bind fun before _ hbefore => ?_
  refine (sub_returns context_prec context_range (context_room (by norm_num) (by norm_num) (by norm_num)) one_spans
    htax).bind fun kept _ hkept => ?_
  refine (mul_returns context_prec context_range (context_room (by norm_num) (by norm_num) (by norm_num)) hbefore.2
    hkept.2).bind fun tn _ htn => ?_
  refine (mul_returns context_prec context_range (context_room (by norm_num) (by norm_num) (by norm_num)) htn.2
    hgrowth).bind fun grown _ hgrown => ?_
  have hroicLow := hroic.unit_le h.roic_pos.ne'
  refine (div_returns context_prec context_range (context_room (by norm_num) (by norm_num) (by decide)) hgrown.2 hroicLow
    hroic.le).bind fun ti _ hti => ?_
  have htn' : Spans 1706 (-2865) tn.value := htn.2.mono (by norm_num) (by norm_num)
  have hti' : Spans 1706 (-2865) ti.value := hti.2.mono (by norm_num) (by decide)
  refine (sub_returns context_prec context_range (context_room (by norm_num) (by norm_num) (by norm_num)) htn' hti').bind
    fun tf _ htf => ?_
  refine (spread_returns h).bind fun spread _ hspread => ?_
  refine (div_returns context_prec context_range (context_room (by norm_num) (by norm_num) (by decide)) htf.2
    (hspread.2.unit_le hspread.1.ne') hspread.2.le).bind fun tv _ htv => ?_
  refine (rate_returns h).bind fun rate _ hrate => ?_
  refine (discount_returns hpower hrate.1 hrate.2 (by omega) (by omega)).bind fun discount _ hdiscount => ?_
  refine (div_returns context_prec context_range (context_room (by norm_num) (by norm_num) (by decide)) htv.2 hdiscount.1
    hdiscount.2.1).bind fun pv _ hpv => ?_
  have hpv' : Spans 1887 (-4146) pv.value := hpv.2.mono (by norm_num) (by decide)
  have hzero : Spans 1326 (-3427) (Decimal.ofInt 0).value := ⟨by simp, 0, by simp⟩
  have hpvs : ∀ v ∈ rows.map (·.pv), Spans 1326 (-3427) v.value := by
    intro v hv
    obtain ⟨row, hrow, rfl⟩ := List.mem_map.mp hv
    exact (hvalues row hrow).2
  refine (sum_returns (by norm_num) (by norm_num) hpvs hzero (by rw [List.length_map]; omega)).bind fun explicit _ hexplicit => ?_
  have hexplicit' : Spans 1887 (-4146) explicit.value := hexplicit.mono (by rw [List.length_map]; omega) (by norm_num)
  refine (add_returns context_prec context_range (context_room (by norm_num) (by norm_num) (by norm_num)) hexplicit' hpv').bind
    fun ev hev hevSpans => ?_
  have hrevenues : ∀ row ∈ rows, 0 < row.revenue.value := fun row hrow => (hvalues row hrow).1
  by_cases hpositive : (forward power).exceeds ev (.ofInt 0) = true
  · have hgt : 0 < ev.value := by simpa using Decimal.lt_iff_value.mp (of_decide_eq_true hpositive)
    rw [if_pos hpositive]
    have hratio := div_returns context_prec context_range (context_room (by norm_num) (by norm_num) (by decide)) hpv'
      (hevSpans.2.unit_le hgt.ne') hevSpans.2.le
    obtain ⟨ratio, hratio, -⟩ := hratio
    rw [hratio]
    exact returns_pure ⟨hrows, hrevenues, fun _ => hgt.ne', hev⟩
  · rw [if_neg hpositive]
    exact returns_pure ⟨hrows, hrevenues, fun hsome => absurd rfl hsome, hev⟩

/-- The forward model returns for every accepted forecast: revenues are positive, no divisor is zero, and the operating
value is the rounded sum of its two parts. -/
theorem evaluate_total (hpower : PowerLaw power) (inputs : Forecast) :
    ∃ e, evaluate (forward power) inputs.toForecastOf = .ok e ∧ e.rows.length = inputs.growth.length ∧
      (∀ row ∈ e.rows, 0 < row.revenue.value) ∧ inputs.terminalRoic.value ≠ 0 ∧
      (∃ spread, context.sub inputs.wacc inputs.terminalGrowth = .ok spread ∧ spread.value ≠ 0) ∧
      (∃ rate, context.add (.ofInt 1) inputs.wacc = .ok rate ∧
        ∀ year, 1 ≤ year → year ≤ inputs.growth.length → ∃ discount, power rate year = .ok discount ∧ 0 < discount.value) ∧
      (e.terminalContribution ≠ none → e.operatingEv.value ≠ 0) ∧ context.add e.pvExplicit e.pvTerminal = .ok e.operatingEv := by
  have h := ForecastOf.domain_of_domains inputs.accepted
  obtain ⟨hsome, hmost, hmargins, htaxes, hreinvestment⟩ := ForecastOf.lengths_of_domains inputs.accepted
  have hyears : inputs.years.length = inputs.growth.length := by
    simp [ForecastOf.years, hmargins, htaxes, hreinvestment]
  obtain ⟨e, he, hevaluated⟩ := evaluate_returns hpower h (by omega) (by omega)
  obtain ⟨spread, hspread, hpositive, -⟩ := spread_returns h
  obtain ⟨rate, hrate, hone, hbound⟩ := rate_returns h
  refine ⟨e, he, hevaluated.rows.trans hyears, hevaluated.revenue, h.roic_pos.ne', ⟨spread, hspread, hpositive.ne'⟩,
    ⟨rate, hrate, fun year hfirst hlast => ?_⟩, hevaluated.ratio, hevaluated.sum⟩
  obtain ⟨discount, hdiscount, -, -, hfactor⟩ := discount_returns hpower hone hbound hfirst (hlast.trans hmost)
  exact ⟨discount, hdiscount, hfactor⟩

end

/-- A power that is rounded once is within one unit in the last place. -/
theorem powerLaw_roundedPower : PowerLaw roundedPower where
  returns base n hone _ hroom := by
    have hnonneg : base.negative = false := by
      by_contra hnegative
      have hle : base.value ≤ 0 := by
        rw [value_eq, Bool.of_not_eq_false hnegative, signFactor, if_pos rfl]
        linarith [mul_nonneg (Nat.cast_nonneg (α := ℚ) base.coefficient) (ten_zpow_pos base.exponent).le]
      linarith
    have hvalue : base.value ^ n = (base.coefficient ^ n : ℕ) / (1 : ℕ) * (10 : ℚ) ^ (base.exponent * n) := by
      rw [value_eq, hnonneg, signFactor, if_neg (by simp), one_mul, mul_pow, zpow_mul, zpow_natCast]
      push_cast
      ring
    have hleast : 1 ≤ base.value ^ n := one_le_pow₀ hone
    obtain ⟨r, hr⟩ : ∃ r, context.finish (base.negative && n % 2 == 1) (base.coefficient ^ n) 1 (base.exponent * n) = .ok r :=
      finish_isOk _ Nat.one_pos context_range (hvalue ▸ hroom)
    have hrounds := finish_rounds _ context_prec Nat.one_pos hr
    rw [hnonneg, Bool.false_and, signFactor, if_neg (by simp), one_mul, ← hvalue] at hrounds
    have hlog : (0 : ℤ) ≤ Int.log 10 (base.value ^ n) := by
      rw [Int.log_of_one_le_right _ hleast]
      exact Int.natCast_nonneg _
    have hroom : context.etiny ≤ Int.log 10 (base.value ^ n) - context.prec + 1 := by
      change (-10078 : ℤ) ≤ Int.log 10 (base.value ^ n) - (80 : ℕ) + 1
      omega
    exact ⟨r, hr, hrounds.error_le context_prec hroom
      (Int.zpow_log_le_self (by norm_num) (zero_lt_one.trans_le hleast)) (Int.lt_zpow_succ_log_self (by norm_num) _)⟩

/-- The sample forecast is evaluated. -/
theorem evaluate_total_sample : ∃ e, evaluate (forward roundedPower) sampleForecast.toForecastOf = .ok e ∧
    e.rows.length = 1 ∧ (∀ row ∈ e.rows, 0 < row.revenue.value) ∧
    context.add e.pvExplicit e.pvTerminal = .ok e.operatingEv := by
  obtain ⟨e, he, hrows, hrevenue, -, -, -, -, hsum⟩ := evaluate_total powerLaw_roundedPower sampleForecast
  exact ⟨e, he, hrows, hrevenue, hsum⟩

end EquityEval.Valuation
