import Mathlib.Data.List.GetD
import EquityEval.Valuation.Verdict

/-!
# Monotone residuals

A forecast whose cash flows are larger in every year is worth more. More reinvestment makes every cash flow smaller; a
larger terminal margin makes none of them smaller and the terminal value larger, whatever the taxes are. So the exact
residual of a solve for either is strictly monotone, and the solver certifies at most one root.
-/

namespace EquityEval.Valuation

open DecimalArithmetic Set

section

variable {K : Type} [Field K] [LinearOrder K] [IsStrictOrderedRing K]

/-! ### Cash flows -/

/-- What is left of a profit after a tax on its positive part grows with it. -/
theorem taxed_mono {rate e e' : K} (h1 : rate ≤ 1) (h : e ≤ e') : e - max e 0 * rate ≤ e' - max e' 0 * rate := by
  have hpositive : max e' 0 - max e 0 ≤ e' - e := by
    rcases le_total e' 0 with he' | he'
    · rw [max_eq_right he', max_eq_right (h.trans he')]
      linarith
    · rw [max_eq_left he']
      linarith [le_max_left e 0]
  have hlarger : max e 0 ≤ max e' 0 := max_le_max_right 0 h
  have htax : (max e' 0 - max e 0) * rate ≤ max e' 0 - max e 0 :=
    mul_le_of_le_one_right (sub_nonneg.mpr hlarger) h1
  linarith

/-- A larger margin makes no cash flow smaller. -/
theorem cashFlow_mono {r : K} {y z : Year K} (hr : 0 ≤ r) (hmargin : y.margin ≤ z.margin) (htax : z.tax = y.tax) (hk : z.k = y.k)
    (h1 : y.tax ≤ 1) : cashFlow r y ≤ cashFlow r z := by
  unfold cashFlow
  rw [htax, hk]
  exact sub_le_sub_right (taxed_mono h1 (mul_le_mul_of_nonneg_left hmargin hr)) _

omit [IsStrictOrderedRing K] in
/-- More reinvestment makes the cash flow smaller by as much. -/
theorem cashFlow_sub {r : K} {y z : Year K} (hmargin : z.margin = y.margin) (htax : z.tax = y.tax) :
    cashFlow r y - cashFlow r z = r * (z.k - y.k) := by
  unfold cashFlow
  rw [hmargin, htax]
  ring

/-! ### Comparing two forecasts -/

/-- The revenues and discount factors agree and are positive, and the second total is larger by a margin. -/
structure Ahead (c : K) (s t : Running K) : Prop where
  revenue : t.revenue = s.revenue
  revenue_pos : 0 < s.revenue
  discount : t.discount = s.discount
  discount_pos : 0 < s.discount
  total : s.total + c ≤ t.total

/-- The second year grows as the first one, by more than minus one, and has no smaller cash flow. -/
structure Outdoes (y z : Year K) : Prop where
  growth : z.growth = y.growth
  growth_pos : 0 < 1 + y.growth
  cashFlow : ∀ r, 0 < r → cashFlow r y ≤ cashFlow r z

variable {wacc c : K} {s t : Running K}

/-- A year that is not outdone keeps what is ahead there. -/
theorem Ahead.year (h : Ahead c s t) (hwacc : 0 < 1 + wacc) {y z : Year K} (hyz : Outdoes y z) :
    Ahead c (exactYear wacc s y) (exactYear wacc t z) := by
  have hrevenue : 0 < s.revenue * (1 + y.growth) := mul_pos h.revenue_pos hyz.growth_pos
  have hdiscount : 0 < s.discount * (1 + wacc) := mul_pos h.discount_pos hwacc
  refine ⟨?_, hrevenue, ?_, hdiscount, ?_⟩
  · simp only [exactYear, h.revenue, hyz.growth]
  · simp only [exactYear, h.discount]
  · simp only [exactYear, h.revenue, h.discount, hyz.growth]
    have hcash := div_le_div_of_nonneg_right (hyz.cashFlow _ hrevenue) hdiscount.le
    linarith [h.total]

/-- Years that are not outdone keep what is ahead before them. -/
theorem Ahead.years (h : Ahead c s t) (hwacc : 0 < 1 + wacc) {ys zs : List (Year K)} (hyears : List.Forall₂ Outdoes ys zs) :
    Ahead c (ys.foldl (exactYear wacc) s) (zs.foldl (exactYear wacc) t) := by
  induction hyears generalizing s t with
  | nil => exact h
  | cons hyz _ ih => exact ih (h.year hwacc hyz)

/-- A year with a larger cash flow puts its forecast ahead. -/
theorem Ahead.of_year (h : Ahead 0 s t) (hwacc : 0 < 1 + wacc) {y z : Year K} (hgrowth : z.growth = y.growth)
    (hpos : 0 < 1 + y.growth) (hcash : ∀ r, 0 < r → cashFlow r y < cashFlow r z) :
    ∃ c, 0 < c ∧ Ahead c (exactYear wacc s y) (exactYear wacc t z) := by
  have hrevenue : 0 < s.revenue * (1 + y.growth) := mul_pos h.revenue_pos hpos
  have hdiscount : 0 < s.discount * (1 + wacc) := mul_pos h.discount_pos hwacc
  refine ⟨(cashFlow (s.revenue * (1 + y.growth)) z - cashFlow (s.revenue * (1 + y.growth)) y) / (s.discount * (1 + wacc)),
    div_pos (sub_pos.mpr (hcash _ hrevenue)) hdiscount, ?_, hrevenue, ?_, hdiscount, ?_⟩
  · simp only [exactYear, h.revenue, hgrowth]
  · simp only [exactYear, h.discount]
  · simp only [exactYear, h.revenue, h.discount, hgrowth, sub_div]
    linarith [h.total]

end

/-! ### The solved years -/

section

variable {inputs : ForecastOf Decimal} {spec : SolveSpecFields} {x y : ℝ}

/-- An entry of a vector has what all numbers of the vector have and what a missing one has. -/
theorem entry_of_forall {p : Decimal → Prop} {v : List Decimal} (h : ∀ d ∈ v, p d) (hmissing : p (.ofInt 0)) (i : ℕ) :
    p (entry v i) := by
  unfold entry
  by_cases hi : i < v.length
  · rw [List.getD_eq_getElem _ _ hi]
    exact h _ (List.getElem_mem hi)
  · rwa [List.getD_eq_default _ _ (not_lt.mp hi)]

/-- No year is taxed by more than its profit. -/
theorem tax_le_one (hdomain : inputs.Domain) (i : ℕ) : (solvedYear inputs spec x i).tax ≤ 1 := by
  have h := entry_of_forall (p := fun d => d.value ≤ 1) (fun t ht => (hdomain.taxes t ht).2) (by simp) i
  change ((entry inputs.taxes i).value : ℝ) ≤ 1
  exact_mod_cast h

/-- A year that is not solved for its growth has a positive growth factor. -/
theorem growth_factor_pos (hdomain : inputs.Domain) (hvariable : spec.solveVariable ≠ .revenueCagr) (i : ℕ) :
    0 < 1 + (solvedYear inputs spec x i).growth := by
  have h := entry_of_forall (p := fun d => -1 < d.value) hdomain.growth (by simp) i
  have hreal : (-1 : ℝ) < (entry inputs.growth i).value := by exact_mod_cast h
  simp only [solvedYear, if_neg hvariable]
  linarith

/-- The discount factor of a year is positive. -/
theorem discount_factor_pos (hdomain : inputs.Domain) : 0 < 1 + (inputs.wacc.value : ℝ) := by
  have h : (0 : ℝ) < inputs.wacc.value := by exact_mod_cast hdomain.wacc_pos
  linarith

/-- Before the first year no forecast is ahead. -/
theorem ahead_start (hdomain : inputs.Domain) :
    Ahead 0 (⟨inputs.revenueAnchor.value, 0, 1⟩ : Running ℝ) ⟨inputs.revenueAnchor.value, 0, 1⟩ :=
  ⟨rfl, Rat.cast_pos.mpr hdomain.anchor_pos, rfl, one_pos, by simp⟩

/-- A terminal year of a positive revenue is worth more with a larger margin. -/
theorem terminal_lt (hdomain : inputs.Domain) {revenue discount : ℝ} (hrevenue : 0 < revenue) (hdiscount : 0 < discount)
    (h : x < y) :
    let part (margin : ℝ) :=
      let tn := revenue * (1 + (inputs.terminalGrowth.value : ℝ)) * margin * (1 - (inputs.terminalTax.value : ℝ))
      (tn - tn * inputs.terminalGrowth.value / inputs.terminalRoic.value) /
        (inputs.wacc.value - inputs.terminalGrowth.value) / discount
    part x < part y := by
  have hgrowth : (0 : ℝ) ≤ inputs.terminalGrowth.value := by exact_mod_cast hdomain.terminalGrowth_nonneg
  have htax : (inputs.terminalTax.value : ℝ) < 1 := by exact_mod_cast hdomain.terminalTax_lt
  have hroic : (0 : ℝ) < inputs.terminalRoic.value := by exact_mod_cast hdomain.roic_pos
  have hlowRoic : (inputs.terminalGrowth.value : ℝ) < inputs.terminalRoic.value := by
    exact_mod_cast hdomain.terminalGrowth_lt_roic
  have hlow : (inputs.terminalGrowth.value : ℝ) < inputs.wacc.value := by exact_mod_cast hdomain.terminalGrowth_lt_wacc
  intro part
  have hpart : ∀ margin, part margin = margin *
      (revenue * (1 + inputs.terminalGrowth.value) * (1 - inputs.terminalTax.value) *
        (1 - inputs.terminalGrowth.value / inputs.terminalRoic.value) /
          (inputs.wacc.value - inputs.terminalGrowth.value) / discount) := by
    intro margin
    simp only [part]
    ring
  have hslope : 0 < revenue * (1 + (inputs.terminalGrowth.value : ℝ)) * (1 - inputs.terminalTax.value) *
      (1 - inputs.terminalGrowth.value / inputs.terminalRoic.value) /
        (inputs.wacc.value - inputs.terminalGrowth.value) / discount := by
    have hkept : (inputs.terminalGrowth.value : ℝ) / inputs.terminalRoic.value < 1 := (div_lt_one hroic).mpr hlowRoic
    refine div_pos (div_pos (mul_pos (mul_pos (mul_pos hrevenue ?_) ?_) ?_) ?_) hdiscount <;> linarith
  rw [hpart, hpart]
  exact mul_lt_mul_of_pos_right h hslope

/-- Every year of a forecast that reinvests less has a larger cash flow. -/
theorem reinvestment_lt (hvariable : spec.solveVariable = .reinvestmentToRevenue) (h : x < y) (i : ℕ) {r : ℝ} (hr : 0 < r) :
    cashFlow r (solvedYear inputs spec y i) < cashFlow r (solvedYear inputs spec x i) := by
  have hk : ∀ z : ℝ, (solvedYear inputs spec z i).k = z := fun z => if_pos hvariable
  have hsub := cashFlow_sub (r := r) (y := solvedYear inputs spec x i) (z := solvedYear inputs spec y i)
    (by simp [solvedYear, hvariable]) rfl
  rw [hk, hk] at hsub
  exact sub_pos.mp (hsub ▸ mul_pos hr (sub_pos.mpr h))

/-- A forecast with a larger terminal margin outdoes another in every year. -/
theorem margin_outdoes (hdomain : inputs.Domain) (hvariable : spec.solveVariable = .terminalOperatingMargin)
    (hweights : ∀ w ∈ spec.marginWeights, 0 ≤ w.value) (h : x ≤ y) (i : ℕ) :
    Outdoes (solvedYear inputs spec x i) (solvedYear inputs spec y i) where
  growth := by simp [solvedYear, hvariable]
  growth_pos := growth_factor_pos hdomain (by simp [hvariable]) i
  cashFlow r hr := by
    have hweight := entry_of_forall (p := fun d => 0 ≤ d.value) hweights (by simp) i
    have hreal : (0 : ℝ) ≤ (entry spec.marginWeights i).value := by exact_mod_cast hweight
    have hmargin : (solvedYear inputs spec x i).margin ≤ (solvedYear inputs spec y i).margin := by
      simp only [solvedYear, if_pos hvariable]
      exact add_le_add_right (mul_le_mul_of_nonneg_left h hreal) _
    exact cashFlow_mono hr.le hmargin rfl (by simp [solvedYear, hvariable]) (tax_le_one hdomain i)

/-- The years of one forecast against those of another. -/
theorem forall₂_solved (h : ∀ i, Outdoes (solvedYear inputs spec x i) (solvedYear inputs spec y i)) (l : List ℕ) :
    List.Forall₂ Outdoes (l.map (solvedYear inputs spec x)) (l.map (solvedYear inputs spec y)) := by
  rw [List.forall₂_map_left_iff, List.forall₂_map_right_iff]
  exact List.forall₂_same.mpr fun i _ => h i

/-- The exact residual decreases with the reinvestment. -/
theorem exactResidual_strictAnti (hdomain : inputs.Domain) (hyears : 1 ≤ inputs.growth.length)
    (hvariable : spec.solveVariable = .reinvestmentToRevenue) (target : Decimal) :
    StrictAnti (exactResidual inputs spec target) := by
  intro x y hxy
  have hgrowth : spec.solveVariable ≠ .revenueCagr := by simp [hvariable]
  have hwacc := discount_factor_pos hdomain
  obtain ⟨n, hn⟩ := Nat.exists_eq_add_of_le' hyears
  -- the first year puts the forecast with less reinvestment ahead
  obtain ⟨c, hc, hfirst⟩ := (ahead_start hdomain).of_year hwacc (y := solvedYear inputs spec y 0)
    (z := solvedYear inputs spec x 0) (by simp [solvedYear, hvariable]) (growth_factor_pos hdomain hgrowth 0)
    fun r hr => reinvestment_lt hvariable hxy 0 hr
  have hlater : ∀ i, Outdoes (solvedYear inputs spec y i) (solvedYear inputs spec x i) := fun i =>
    ⟨by simp [solvedYear, hvariable], growth_factor_pos hdomain hgrowth i,
      fun r hr => (reinvestment_lt hvariable hxy i hr).le⟩
  have hlast := hfirst.years hwacc (forall₂_solved hlater ((List.range n).map (· + 1)))
  unfold exactResidual
  rw [residual_exact, residual_exact, hn, List.range_succ_eq_map]
  simp only [List.map_cons, List.foldl_cons, hvariable, reduceCtorEq, if_false]
  have hrevenue := hlast.revenue
  have hdiscount := hlast.discount
  have htotal := hlast.total
  rw [hrevenue, hdiscount]
  linarith

/-- The exact residual increases with the terminal margin. -/
theorem exactResidual_strictMono (hdomain : inputs.Domain) (hvariable : spec.solveVariable = .terminalOperatingMargin)
    (hweights : ∀ w ∈ spec.marginWeights, 0 ≤ w.value) (target : Decimal) :
    StrictMono (exactResidual inputs spec target) := by
  intro x y hxy
  have hlast := (ahead_start hdomain).years (discount_factor_pos hdomain)
    (forall₂_solved (margin_outdoes hdomain hvariable hweights hxy.le) (List.range inputs.growth.length))
  have hterminal := terminal_lt hdomain hlast.revenue_pos hlast.discount_pos hxy
  have htotal := hlast.total
  unfold exactResidual
  rw [residual_exact, residual_exact]
  simp only [hvariable, if_true, hlast.revenue, hlast.discount]
  simp only at hterminal
  linarith

end

/-! ### Roots of a monotone residual -/

/-- The weights of a margin solve are not negative. -/
theorem SolveSpec.weights_nonneg (spec : SolveSpec) (hvariable : spec.solveVariable = .terminalOperatingMargin) :
    ∀ w ∈ spec.marginWeights, 0 ≤ w.value := by
  have h := spec.accepted
  simp only [SolveSpecFields.domain, boundedDecimals, refuseIf_bind_eq_ok, hvariable, if_true, not_or] at h
  obtain ⟨-, -, -, -, -, ⟨-, -, -, -, hweights, -⟩, -⟩ := h
  intro w hw
  by_contra hneg
  exact hweights ⟨w, hw, fun hin => hneg (by simpa using Decimal.le_iff_value.mp hin.1)⟩

/-- A residual without two zeros has at most one certified root. -/
theorem Solver.RunInv.roots_le_one {s : Solver} {st : Solver.LoopState} (h : s.RunInv st) (hf : Function.Injective s.f) :
    st.roots.length ≤ 1 := by
  obtain ⟨roots, hevidence, heq, -⟩ := h.evidence
  have htiles := h.tiles
  rw [Solver.LoopState.regions] at htiles
  obtain ⟨_, hproofs, -⟩ := tiles_append.mp htiles
  obtain ⟨zs, hlength, hsorted, hzeros⟩ := Solver.exists_zeros hevidence hproofs
  rw [heq, List.length_map, ← hlength]
  rcases zs with _ | ⟨y, _ | ⟨z, rest⟩⟩
  · exact Nat.zero_le 1
  · exact le_refl 1
  · have hlt : y < z := (List.pairwise_cons.mp hsorted).1 z (by simp)
    have hsame : y = z := hf ((hzeros y (by simp)).2.trans (hzeros z (by simp)).2.symm)
    exact absurd hsame hlt.ne

/-- The residual is strictly monotone in the reinvestment and in the terminal margin, so a solve for either is never
not unique and presents at most one root. -/
theorem residual_monotone (inputs : Forecast) (spec : SolveSpec) (target : Decimal) :
    (spec.solveVariable = .reinvestmentToRevenue →
      StrictAntiOn (exactResidual inputs.toForecastOf spec.toSolveSpecFields target) (Icc (spec.lower.value : ℝ) spec.upper.value)) ∧
    (spec.solveVariable = .terminalOperatingMargin →
      StrictMonoOn (exactResidual inputs.toForecastOf spec.toSolveSpecFields target) (Icc (spec.lower.value : ℝ) spec.upper.value)) ∧
    ∀ r, spec.solveVariable ≠ .revenueCagr → solve inputs spec target = .ok r →
      r.state ≠ .nonUnique ∧ r.rootIntervals.length ≤ 1 := by
  have hdomain := ForecastOf.domain_of_domains inputs.accepted
  have hyears := (ForecastOf.lengths_of_domains inputs.accepted).1
  refine ⟨fun hvariable => (exactResidual_strictAnti hdomain hyears hvariable target).strictAntiOn _,
    fun hvariable => (exactResidual_strictMono hdomain hvariable (spec.weights_nonneg hvariable) target).strictMonoOn _,
    fun r hvariable hr => ?_⟩
  have hinjective : Function.Injective (Solver.f ⟨inputs, spec, target⟩) := by
    cases hcases : spec.solveVariable with
    | revenueCagr => exact absurd hcases hvariable
    | terminalOperatingMargin => exact (exactResidual_strictMono hdomain hcases (spec.weights_nonneg hcases) target).injective
    | reinvestmentToRevenue => exact (exactResidual_strictAnti hdomain hyears hcases target).injective
  obtain ⟨reason, hreports, hinv⟩ := Solver.run_reports (Solver.run_of_solve hr)
  have hone := hinv.roots_le_one hinjective
  refine ⟨fun hstate => ?_, ?_⟩
  · rw [hreports.state] at hstate
    exact absurd (Solver.roots_of_non_unique hstate) (not_lt.mpr hone)
  · rwa [← hreports.rootIntervals, List.length_map] at hone

/-- A margin solve over the sample forecast. -/
def marginSpec : SolveSpec where
  solveVariable := .terminalOperatingMargin
  lower := ⟨false, 1, -2⟩
  upper := .ofInt 1
  absoluteTolerance := .ofInt 1000
  relativeTolerance := .ofInt 0
  widthTolerance := .ofInt 1
  maxIterations := 8
  maxSubdivisions := 8
  maxEvaluations := 8
  marginWeights := [.ofInt 1]
  anchorMargin := some ⟨true, 1, -1⟩
  accepted := by decide +kernel

/-- A reinvestment solve over the sample forecast. -/
def reinvestmentSpec : SolveSpec where
  solveVariable := .reinvestmentToRevenue
  lower := .ofInt 0
  upper := .ofInt 1
  absoluteTolerance := .ofInt 1000
  relativeTolerance := .ofInt 0
  widthTolerance := .ofInt 1
  maxIterations := 8
  maxSubdivisions := 8
  maxEvaluations := 8
  marginWeights := []
  anchorMargin := none
  accepted := by decide +kernel

/-- Both solves have one root, on a residual that is strictly monotone. -/
theorem residual_monotone_sample :
    (StrictAntiOn (exactResidual sampleForecast.toForecastOf reinvestmentSpec.toSolveSpecFields (.ofInt 150))
        (Icc (reinvestmentSpec.lower.value : ℝ) reinvestmentSpec.upper.value) ∧
      ∃ r, solve sampleForecast reinvestmentSpec (.ofInt 150) = .ok r ∧ r.state ≠ .nonUnique ∧ r.rootIntervals.length ≤ 1) ∧
    (StrictMonoOn (exactResidual sampleForecast.toForecastOf marginSpec.toSolveSpecFields (.ofInt 150))
        (Icc (marginSpec.lower.value : ℝ) marginSpec.upper.value) ∧
      ∃ r, solve sampleForecast marginSpec (.ofInt 150) = .ok r ∧ r.state ≠ .nonUnique ∧ r.rootIntervals.length ≤ 1) := by
  obtain ⟨r, hr, -⟩ := Solver.run_converges ⟨sampleForecast, reinvestmentSpec, .ofInt 150⟩ 1 (.ofInt 1000) ⟨false, 5, -1⟩ (by decide) rfl
    (by decide) (by decide +kernel) (by decide +kernel) (by decide +kernel) (by decide +kernel) (by decide +kernel)
  obtain ⟨r', hr', -⟩ := Solver.run_converges ⟨sampleForecast, marginSpec, .ofInt 150⟩ (-1) (.ofInt 1000) ⟨false, 505, -3⟩ (by decide)
    (by decide +kernel) (by decide) (by decide +kernel) (by decide +kernel) (by decide +kernel) (by decide +kernel) (by decide +kernel)
  have hr : solve sampleForecast reinvestmentSpec (.ofInt 150) = .ok r := by
    rw [solve, if_neg fun hmargin => absurd hmargin.1 (by decide)]
    exact hr
  have hr' : solve sampleForecast marginSpec (.ofInt 150) = .ok r' := by
    rw [solve, if_neg fun hmargin => hmargin.2 rfl]
    exact hr'
  have hreinvestment := residual_monotone sampleForecast reinvestmentSpec (.ofInt 150)
  have hmargin := residual_monotone sampleForecast marginSpec (.ofInt 150)
  exact ⟨⟨hreinvestment.1 rfl, r, hr, hreinvestment.2.2 r (by decide) hr⟩,
    hmargin.2.1 rfl, r', hr', hmargin.2.2 r' (by decide) hr'⟩

end EquityEval.Valuation
