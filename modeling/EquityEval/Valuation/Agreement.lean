import EquityEval.Valuation.Scenario

/-!
# The residual is the forward model minus the target

The two recurrences are compared in exact arithmetic over any ordered field. Both are folds
of one year over the same list of years: the residual carries a running discount factor and a
running total, the forward model takes a power for each row and sums the rows at the end.
-/

namespace EquityEval.Valuation

open DecimalArithmetic

/-- The constant one in exact arithmetic. -/
@[simp] theorem value_one {K : Type} [Field K] : ((Decimal.ofInt 1).value : K) = 1 := by simp

/-- The constant zero in exact arithmetic. -/
@[simp] theorem value_zero {K : Type} [Field K] : ((Decimal.ofInt 0).value : K) = 0 := by simp

/-- A mapped vector, entry by entry. -/
theorem map_eq_range {β : Type} (l : List Decimal) (g : Decimal → β) :
    l.map g = (List.range l.length).map fun i => g (entry l i) := by
  refine List.ext_getElem (by simp) fun i hi _ => ?_
  have hlt : i < l.length := by simpa using hi
  simp [entry, hlt]

variable {K : Type} [Field K] [LinearOrder K]

/-- The exact inputs of a year with the unknown in the solved slot. -/
def solvedYear (inputs : ForecastOf Decimal) (spec : SolveSpecFields) (x : K) (i : ℕ) : Year K where
  growth := if spec.solveVariable = .revenueCagr then x else (entry inputs.growth i).value
  margin :=
    if spec.solveVariable = .terminalOperatingMargin then
      (1 - ((entry spec.marginWeights i).value : K)) * ((spec.anchorMargin.getD (.ofInt 0)).value : K) +
        ((entry spec.marginWeights i).value : K) * x
    else (entry inputs.margins i).value
  tax := (entry inputs.taxes i).value
  k := if spec.solveVariable = .reinvestmentToRevenue then x else (entry inputs.reinvestment i).value

/-- The exact free cash flow of a year with the given revenue. -/
def cashFlow (revenue : K) (y : Year K) : K :=
  revenue * y.margin - max (revenue * y.margin) 0 * y.tax - revenue * y.k

/-- One exact year of the residual's loop. -/
def exactYear (wacc : K) (s : Running K) (y : Year K) : Running K where
  revenue := s.revenue * (1 + y.growth)
  total := s.total + cashFlow (s.revenue * (1 + y.growth)) y / (s.discount * (1 + wacc))
  discount := s.discount * (1 + wacc)

/-- The residual's loop over exact numbers runs over the solved years. -/
theorem residualYear_exact (inputs : ForecastOf Decimal) (spec : SolveSpecFields) (x : K) (s : Running K)
    (i : ℕ) :
    (residualYear (exact K) inputs spec x s i).run =
      exactYear (inputs.wacc.value : K) s (solvedYear inputs spec x i) := by
  unfold residualYear residualMargin exactYear cashFlow solvedYear
  by_cases hmargin : spec.solveVariable = .terminalOperatingMargin
  · simp [hmargin, exact]
  · simp only [hmargin, if_false]
    simp [exact]

/-- The value left by the terminal year at the given revenue and discount factor. -/
def terminalPart (inputs : ForecastOf K) (revenue discount : K) : K :=
  let tn := revenue * (1 + inputs.terminalGrowth) * inputs.terminalMargin * (1 - inputs.terminalTax)
  (tn - tn * inputs.terminalGrowth / inputs.terminalRoic) / (inputs.wacc - inputs.terminalGrowth) / discount

/-- The rows of the forward model accumulate what the residual's loop accumulates. -/
theorem forecastRows_exact (wacc : K) (year : ℕ) (revenue total : K) (ys : List (Year K)) :
    let r := (forecastRows (exactForward K) wacc (year + 1) revenue ys).run
    ys.foldl (exactYear wacc) ⟨revenue, total, (1 + wacc) ^ year⟩ =
      ⟨r.1, (r.2.map (·.pv)).foldl (· + ·) total, (1 + wacc) ^ (year + ys.length)⟩ ∧
      r.2.length = ys.length := by
  induction ys generalizing year revenue total with
  | nil => exact ⟨rfl, rfl⟩
  | cons y rest ih =>
    have hstep : exactYear wacc ⟨revenue, total, (1 + wacc) ^ year⟩ y =
        ⟨revenue * (1 + y.growth),
          total + cashFlow (revenue * (1 + y.growth)) y / (1 + wacc) ^ (year + 1),
          (1 + wacc) ^ (year + 1)⟩ := by
      unfold exactYear
      rw [pow_succ]
    obtain ⟨hfold, hlen⟩ := ih (year + 1) (revenue * (1 + y.growth))
      (total + cashFlow (revenue * (1 + y.growth)) y / (1 + wacc) ^ (year + 1))
    have hrun : (forecastRows (exactForward K) wacc (year + 1) revenue (y :: rest)).run =
        (((forecastRows (exactForward K) wacc (year + 2) (revenue * (1 + y.growth)) rest).run).1,
          (forecastRow (exactForward K) wacc (year + 1) revenue y).run ::
            (forecastRows (exactForward K) wacc (year + 2) (revenue * (1 + y.growth)) rest).run.2) := by
      simp [forecastRows, forecastRow, exactForward, exact]
    have hpv : (forecastRow (exactForward K) wacc (year + 1) revenue y).run.pv =
        cashFlow (revenue * (1 + y.growth)) y / (1 + wacc) ^ (year + 1) := by
      simp [forecastRow, exactForward, exact, cashFlow]
    simp only [hrun, List.foldl_cons, List.map_cons, List.length_cons, hstep, hpv]
    refine ⟨?_, by rw [hlen]⟩
    rw [hfold]
    congr 2
    omega

/-- The exact residual is the fold over the solved years with the terminal value. -/
theorem residual_exact (inputs : ForecastOf Decimal) (spec : SolveSpecFields) (x : K) (target : Decimal) :
    (residual (exact K) inputs spec x target).run =
      let s := ((List.range inputs.growth.length).map (solvedYear inputs spec x)).foldl
        (exactYear (inputs.wacc.value : K)) ⟨inputs.revenueAnchor.value, 0, 1⟩
      let tn := s.revenue * (1 + (inputs.terminalGrowth.value : K)) *
        (if spec.solveVariable = .terminalOperatingMargin then x else inputs.terminalMargin.value) *
        (1 - (inputs.terminalTax.value : K))
      s.total + (tn - tn * inputs.terminalGrowth.value / inputs.terminalRoic.value) /
        (inputs.wacc.value - inputs.terminalGrowth.value) / s.discount - target.value := by
  have hfold : ∀ (l : List ℕ) (s : Running K),
      (l.foldlM (residualYear (exact K) inputs spec x) s).run =
        (l.map (solvedYear inputs spec x)).foldl (exactYear (inputs.wacc.value : K)) s := by
    intro l
    induction l with
    | nil => exact fun s => rfl
    | cons i rest ih =>
      intro s
      simp only [List.foldlM_cons, List.map_cons, List.foldl_cons, Id.run_bind]
      rw [ih, residualYear_exact]
  unfold residual
  simp only [Id.run_bind, hfold]
  simp [exact]

/-- The exact operating value of a forecast through the fold over its years. -/
theorem evaluate_exact (f : ForecastOf K) :
    (evaluate (exactForward K) f).run.operatingEv =
      let s := f.years.foldl (exactYear f.wacc) ⟨f.revenueAnchor, 0, 1⟩
      s.total + terminalPart f s.revenue s.discount := by
  obtain ⟨hfold, hlen⟩ := forecastRows_exact f.wacc 0 f.revenueAnchor 0 f.years
  rw [pow_zero] at hfold
  simp only [hfold]
  have hsum : ∀ (l : List K) (a : K), (l.foldlM (exactForward K).add a).run = l.foldl (· + ·) a := by
    intro l
    induction l with
    | nil => exact fun a => rfl
    | cons v rest ih => exact fun a => ih (a + v)
  unfold evaluate
  simp only [Id.run_bind, hsum, Nat.zero_add] at hlen ⊢
  rw [← hlen]
  generalize forecastRows (exactForward K) f.wacc 1 f.revenueAnchor f.years = r
  simp only [exactForward, exact, Id.run_pure, terminalPart, value_one, value_zero]
  split <;> rfl

/-- What `resolved` puts into the slots of a forecast, for any placeholder. -/
structure ScenarioFields.Fills (s : ScenarioFields) (f : ForecastOf Decimal) : Prop where
  revenueAnchor : f.revenueAnchor = s.revenueAnchor
  years : f.growth.length = s.taxes.length
  growth : s.solve.solveVariable ≠ .revenueCagr → f.growth = s.growth.getD []
  margins : s.solve.solveVariable ≠ .terminalOperatingMargin → f.margins = s.margins.getD []
  marginYears : s.solve.solveVariable ≠ .terminalOperatingMargin → f.margins.length = s.taxes.length
  taxes : f.taxes = s.taxes
  reinvestment : s.solve.solveVariable ≠ .reinvestmentToRevenue → f.reinvestment = s.reinvestment.getD []
  reinvestmentYears :
    s.solve.solveVariable ≠ .reinvestmentToRevenue → f.reinvestment.length = s.taxes.length
  wacc : f.wacc = s.wacc
  terminalGrowth : f.terminalGrowth = s.terminalGrowth
  terminalMargin :
    s.solve.solveVariable ≠ .terminalOperatingMargin → f.terminalMargin = s.terminalMargin.getD (.ofInt 0)
  terminalTax : f.terminalTax = s.terminalTax
  terminalRoic : f.terminalRoic = s.terminalRoic

/-- A resolved forecast holds the scenario's numbers outside the solved slots. -/
theorem fills_of_resolved {scenario : Scenario} {placeholder : Decimal} {inputs : Forecast}
    (h : resolved scenario placeholder = .ok inputs) :
    scenario.toScenarioFields.Fills inputs.toForecastOf := by
  obtain ⟨f, haccepted⟩ := inputs
  obtain ⟨_, _, hmargins, htaxes, hreinvestment⟩ := ForecastOf.lengths_of_domains haccepted
  have hvalues := resolved_values h
  unfold resolvedValues at hvalues
  change _ = Except.ok f at hvalues
  change scenario.toScenarioFields.Fills f
  clear h haccepted
  have hid : ∀ l : List Decimal, l.map (rounded context).const = l := List.map_id
  -- only the faded margins are computed, and the residual of a margin solve does not read them
  by_cases hv : scenario.solve.solveVariable = .terminalOperatingMargin
  · simp only [hv, if_true] at hvalues
    obtain ⟨margins, _, hvalues⟩ := exists_of_bind_eq_ok hvalues
    cases hvalues
    simp only [hid, reduceCtorEq, if_false] at *
    exact
      { revenueAnchor := rfl
        years := htaxes.symm
        growth := fun _ => rfl
        margins := fun hne => absurd hv hne
        marginYears := fun hne => absurd hv hne
        taxes := rfl
        reinvestment := fun _ => rfl
        reinvestmentYears := fun _ => hreinvestment.trans htaxes.symm
        wacc := rfl
        terminalGrowth := rfl
        terminalMargin := fun hne => absurd hv hne
        terminalTax := rfl
        terminalRoic := rfl }
  · simp only [hv, if_false, pure_bind] at hvalues
    cases hvalues
    simp only [hid] at *
    exact
      { revenueAnchor := rfl
        years := htaxes.symm
        growth := fun hne => if_neg hne
        margins := fun _ => rfl
        marginYears := fun _ => hmargins.trans htaxes.symm
        taxes := rfl
        reinvestment := fun hne => if_neg hne
        reinvestmentYears := fun _ => hreinvestment.trans htaxes.symm
        wacc := rfl
        terminalGrowth := rfl
        terminalMargin := fun _ => rfl
        terminalTax := rfl
        terminalRoic := rfl }

/-- The vectors of the exactly resolved forecast are the columns of the solved years. -/
theorem vectors_resolvedValues {scenario : Scenario} {inputs : ForecastOf Decimal}
    (h : scenario.toScenarioFields.Fills inputs) (x : K) :
    let f := (resolvedValues (exact K) scenario.toScenarioFields x).run
    let y := solvedYear inputs scenario.solve.toSolveSpecFields x
    let l := List.range inputs.growth.length
    f.growth = l.map (fun i => (y i).growth) ∧ f.margins = l.map (fun i => (y i).margin) ∧
      f.taxes = l.map (fun i => (y i).tax) ∧ f.reinvestment = l.map fun i => (y i).k := by
  -- the fade of the exact forecast is the fade of the residual
  have hfade : ∀ ws : List Decimal,
      (ws.mapM (m := Id) fun w => do
        (exact K).add
          (← (exact K).mul (← (exact K).sub ((exact K).const (.ofInt 1)) ((exact K).const w))
            ((exact K).const (scenario.solve.anchorMargin.getD (.ofInt 0))))
          (← (exact K).mul ((exact K).const w) x)).run =
      ws.map fun w =>
        (1 - (w.value : K)) * ((scenario.solve.anchorMargin.getD (.ofInt 0)).value : K) + (w.value : K) * x := by
    intro ws
    rw [List.idRun_mapM]
    simp [exact]
  have hrange : ∀ (l : List Decimal) (g : Decimal → K), l.length = scenario.taxes.length →
      l.map g = (List.range inputs.growth.length).map fun i => g (entry l i) := by
    intro l g hl
    rw [h.years, ← hl]
    exact map_eq_range l g
  have htaxes := h.years
  unfold resolvedValues solvedYear
  dsimp only
  refine ⟨?_, ?_, ?_, ?_⟩
  · by_cases hv : scenario.solve.solveVariable = .revenueCagr
    · simp [hv, htaxes]
    · have hgrowth := h.growth hv
      simp only [hv, if_false]
      rw [← hgrowth]
      split
      · exact map_eq_range inputs.growth _
      · exact map_eq_range inputs.growth _
  · by_cases hv : scenario.solve.solveVariable = .terminalOperatingMargin
    · simp only [hv, if_true]
      exact (hfade _).trans (hrange _ _ (scenario.weights_length hv))
    · simp only [hv, if_false]
      rw [← h.margins hv]
      exact hrange _ _ (h.marginYears hv)
  · rw [h.taxes]
    split
    · exact hrange scenario.taxes _ rfl
    · exact hrange scenario.taxes _ rfl
  · by_cases hv : scenario.solve.solveVariable = .reinvestmentToRevenue
    · simp [hv, htaxes]
    · simp only [hv, if_false]
      rw [← h.reinvestment hv]
      split
      · exact hrange _ _ (h.reinvestmentYears hv)
      · exact hrange _ _ (h.reinvestmentYears hv)

/-- The years of the exactly resolved forecast are the solved years. -/
theorem years_resolvedValues {scenario : Scenario} {inputs : ForecastOf Decimal}
    (h : scenario.toScenarioFields.Fills inputs) (x : K) :
    (resolvedValues (exact K) scenario.toScenarioFields x).run.years =
      (List.range inputs.growth.length).map (solvedYear inputs scenario.solve.toSolveSpecFields x) := by
  obtain ⟨hgrowth, hmargins, htaxes, hreinvestment⟩ := vectors_resolvedValues h x
  unfold ForecastOf.years
  rw [hgrowth, hmargins, htaxes, hreinvestment, List.zip_map', List.zip_map', List.zip_map', List.map_map]
  rfl

/-- The exact residual of a filled forecast is the exact value of the resolved one minus the target. -/
theorem residual_eq_operatingEv {scenario : Scenario} {inputs : ForecastOf Decimal}
    (h : scenario.toScenarioFields.Fills inputs) (target : Decimal) (x : K) :
    (residual (exact K) inputs scenario.solve.toSolveSpecFields x target).run =
      (evaluate (exactForward K) (resolvedValues (exact K) scenario.toScenarioFields x).run).run.operatingEv -
        target.value := by
  rw [residual_exact, evaluate_exact, years_resolvedValues h]
  unfold terminalPart
  have hfields : ∀ f : ForecastOf K, f = (resolvedValues (exact K) scenario.toScenarioFields x).run →
      f.revenueAnchor = inputs.revenueAnchor.value ∧ f.wacc = inputs.wacc.value ∧
        f.terminalGrowth = inputs.terminalGrowth.value ∧
        f.terminalMargin = (if scenario.solve.solveVariable = .terminalOperatingMargin then x
          else inputs.terminalMargin.value) ∧
        f.terminalTax = inputs.terminalTax.value ∧ f.terminalRoic = inputs.terminalRoic.value := by
    rintro _ rfl
    rw [h.revenueAnchor, h.wacc, h.terminalGrowth, h.terminalTax, h.terminalRoic]
    by_cases hv : scenario.solve.solveVariable = .terminalOperatingMargin
    · simp only [resolvedValues, hv, if_true]
      exact ⟨rfl, rfl, rfl, rfl, rfl, rfl⟩
    · rw [h.terminalMargin hv]
      simp only [resolvedValues, hv, if_false]
      exact ⟨rfl, rfl, rfl, rfl, rfl, rfl⟩
  obtain ⟨h1, h2, h3, h4, h5, h6⟩ := hfields _ rfl
  rw [h1, h2, h3, h4, h5, h6]

end EquityEval.Valuation
