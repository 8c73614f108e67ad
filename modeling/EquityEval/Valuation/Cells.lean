import EquityEval.Valuation.Patches
import EquityEval.Valuation.SolverValues

/-!
# Cells at the values of their scenario

A cell whose axes stand at values that the reference scenario already has computes on a forecast that is numerically equal to the
scenario's. So it solves or reprices to the same numbers, where the scenario itself is valid and no zero margin is refused for its
exponent.
-/

namespace EquityEval.Valuation

open DecimalArithmetic

variable {power : Decimal → ℕ → Except DecimalException Decimal} {scenario : Scenario} {grid : SensitivityGrid}
  {market adjustment target shares x y a b : Decimal}

/-- What a scenario with valid inputs has computed. -/
theorem calculateScenario_cases
    (h : (calculateScenario power scenario (.eligible market adjustment target shares)).solve.state ≠ .unavailable) :
    ∃ inputs result, resolved scenario scenario.solve.lower = .ok inputs ∧ solve inputs scenario.solve target = .ok result ∧
      (result.representative = none ∧
          calculateScenario power scenario (.eligible market adjustment target shares) =
            scenarioResult scenario result none none none ∨
        ∃ b forecast evaluated equity perShare, result.representative = some b ∧ resolved scenario b = .ok forecast ∧
          evaluate (forward power) forecast.toForecastOf = .ok evaluated ∧
          context.add evaluated.operatingEv adjustment = .ok equity ∧ context.div equity shares = .ok perShare ∧
          calculateScenario power scenario (.eligible market adjustment target shares) =
            scenarioResult scenario result (some evaluated) (some equity) (some perShare)) := by
  generalize hr : calculateScenario power scenario (.eligible market adjustment target shares) = r at h
  unfold calculateScenario at hr
  dsimp only at hr
  split at hr
  · exact absurd (hr ▸ rfl) h
  · rename_i result hresult
    obtain ⟨inputs, hinputs, hsolve⟩ := exists_of_bind_eq_ok hresult
    refine ⟨inputs, result, hinputs, hsolve, ?_⟩
    split at hr
    · rename_i hnone
      exact .inl ⟨hnone, hr.symm⟩
    · rename_i b hb
      split at hr
      · exact absurd (hr ▸ rfl) h
      · rename_i evaluated hevaluated
        obtain ⟨forecast, hforecast, hevaluate⟩ := exists_of_bind_eq_ok hevaluated
        split at hr
        · exact absurd (hr ▸ rfl) h
        · rename_i equity hequity
          split at hr
          · exact absurd (hr ▸ rfl) h
          · rename_i perShare hshare
            exact .inr ⟨b, forecast, evaluated, equity, perShare, hb, hforecast, mapError_eq_ok.mp hevaluate, hequity, hshare,
              hr.symm⟩

/-- The vectors of a resolved forecast have the years of the scenario. -/
theorem years_of_resolved {inputs : Forecast} (h : resolved scenario a = .ok inputs) :
    inputs.growth.length = scenario.taxes.length ∧ inputs.reinvestment.length = scenario.taxes.length := by
  obtain ⟨_, _, _, htaxes, hreinvestment⟩ := ForecastOf.lengths_of_domains inputs.accepted
  obtain ⟨margins, _, hvalues⟩ := resolvedValues_eq_ok.mp (resolved_values h)
  have hown : inputs.taxes = scenario.taxes := congrArg ForecastOf.taxes hvalues
  rw [hown] at htaxes
  exact ⟨htaxes.symm, hreinvestment.trans htaxes.symm⟩

/-! ### The forecast of a cell -/

/-- The parameter at which the forecast of a cell is resolved before it is patched. -/
def startOf (scenario : Scenario) (grid : SensitivityGridFields) : Decimal :=
  grid.conditionalParameter.getD scenario.solve.lower

/-- The margins that fade to a value of the scenario fit. -/
def FadesFit (scenario : Scenario) (a : Decimal) : Prop :=
  ∀ z margins, scenario.Holds a .terminalOperatingMargin z →
    fadedMargins (rounded context) scenario.solve.toSolveSpecFields z = .ok margins → ∀ d ∈ margins, Fits d

/-- An entry of a list is numerically equal to one of a list that is numerically equal to it. -/
theorem exists_of_forall₂ {R : Decimal → Decimal → Prop} {l l' : List Decimal} (h : List.Forall₂ R l l') {d : Decimal}
    (hd : d ∈ l) : ∃ d' ∈ l', R d d' := by
  induction h with
  | nil => cases hd
  | cons hhead _ ih =>
    rcases List.mem_cons.mp hd with rfl | hd
    · exact ⟨_, List.mem_cons_self, hhead⟩
    · obtain ⟨d', hd', hR⟩ := ih hd
      exact ⟨d', List.mem_cons_of_mem _ hd', hR⟩

/-- The terminal margin of a margin solve is the solved parameter. -/
theorem holds_terminalMargin (hv : scenario.solve.solveVariable = .terminalOperatingMargin) :
    scenario.Holds a .terminalOperatingMargin x ↔ a.NumEq x := by
  have hnone : scenario.terminalMargin = none :=
    Option.isNone_iff_eq_none.mp (scenario.isNone_slots.2.2.2.trans (decide_eq_true hv))
  simp [ScenarioFields.Holds, ScenarioFields.ownValues, hnone]

/-- Margins none of which is zero fit in every representation. -/
theorem fadesFit_of_ne_zero {forecast : Forecast} (hv : scenario.solve.solveVariable = .terminalOperatingMargin)
    (h : resolved scenario a = .ok forecast) (hne : ∀ d ∈ forecast.margins, d.value ≠ 0) : FadesFit scenario a := by
  intro z margins hz hmargins d hd
  obtain ⟨own, hown, hvalues⟩ := resolvedValues_eq_ok.mp (resolved_values h)
  have hequal : forecast.margins = own := congrArg ForecastOf.margins hvalues
  rw [ScenarioFields.marginsOf, if_pos hv, ← hequal] at hown
  have hza : z.NumEq a := Eq.symm ((holds_terminalMargin hv).mp hz)
  obtain ⟨_, hown', hrelated⟩ := (fadedMargins_congr scenario.solve.toSolveSpecFields hza).exists_of_ok hmargins
  cases hown.symm.trans hown'
  obtain ⟨d', hd', hdd'⟩ := exists_of_forall₂ hrelated hd
  have hfits : Fits d' := (every_iff.mpr (ForecastOf.domain_of_domains forecast.accepted).bounded).margins d' hd'
  exact hfits.congr hdd' (hne d' hd') (digits_fadedMargins hmargins hd)

/-- The forecast of a cell at values of its scenario is numerically equal to the scenario's. -/
theorem related_of_cellForecast {forecast fc : Forecast} {values : ForecastOf Decimal} (hstart : (startOf scenario grid.1).NumEq a)
    (hg : resolved scenario a = .ok forecast) (hx : scenario.Holds a grid.xParameter x) (hy : scenario.Holds a grid.yParameter y)
    (h : cellForecast scenario grid.1 x y = .ok (values, fc)) :
    values.Related Decimal.NumEq forecast.toForecastOf ∧ fc.toForecastOf = values := by
  unfold cellForecast patched at h
  obtain ⟨values', hvalues, h⟩ := exists_of_bind_eq_ok h
  obtain ⟨inputs, hinputs, hvalues⟩ := exists_of_bind_eq_ok hvalues
  obtain ⟨first, hfirst, hsecond⟩ := exists_of_bind_eq_ok hvalues
  obtain ⟨fc', hfc, h⟩ := exists_of_bind_eq_ok h
  cases h
  have hown := resolved_values hg
  have hyears := years_of_resolved hg
  obtain ⟨_, hresolved, hrelated⟩ := resolvedValues_congr scenario.toScenarioFields hstart hown
  cases hresolved.symm.trans (resolved_values hinputs)
  obtain ⟨_, hfirst', hrelated⟩ := changed_own hown hyears hrelated hx
  cases (mapError_eq_ok.mp hfirst).symm.trans hfirst'
  obtain ⟨_, hsecond', hrelated⟩ := changed_own hown hyears hrelated hy
  cases (mapError_eq_ok.mp hsecond).symm.trans hsecond'
  refine ⟨hrelated, ?_⟩
  unfold Forecast.modelValidate at hfc
  split at hfc
  · cases hfc
    rfl
  · cases hfc

/-- A cell at values of its scenario has a forecast, once the margins that it fades fit. -/
theorem cellForecast_isOk {forecast inputs : Forecast} (hstart : (startOf scenario grid.1).NumEq a)
    (hinputs : resolved scenario (startOf scenario grid.1) = .ok inputs) (hg : resolved scenario a = .ok forecast)
    (hx : scenario.Holds a grid.xParameter x) (hy : scenario.Holds a grid.yParameter y) (hxfits : Fits x) (hyfits : Fits y)
    (hfade : grid.xParameter = .terminalOperatingMargin ∨ grid.yParameter = .terminalOperatingMargin →
      scenario.solve.solveVariable = .terminalOperatingMargin → FadesFit scenario a) :
    ∃ values fc, cellForecast scenario grid.1 x y = .ok (values, fc) := by
  have hown := resolved_values hg
  have hyears := years_of_resolved hg
  obtain ⟨_, hresolved, hrelated⟩ := resolvedValues_congr scenario.toScenarioFields hstart hown
  cases hresolved.symm.trans (resolved_values hinputs)
  have hfits : inputs.toForecastOf.Every Fits := every_iff.mpr (ForecastOf.domain_of_domains inputs.accepted).bounded
  obtain ⟨first, hfirst, hrelated⟩ := changed_own hown hyears hrelated hx
  have hfits := every_changed hfits hxfits (fun hp hv margins => hfade (.inl hp) hv x margins (hp ▸ hx)) hfirst
  obtain ⟨values, hsecond, hrelated⟩ := changed_own hown hyears hrelated hy
  have hfits := every_changed hfits hyfits (fun hp hv margins => hfade (.inr hp) hv y margins (hp ▸ hy)) hsecond
  have hdomains := domains_congr hrelated forecast.accepted hfits
  refine ⟨values, ⟨values, hdomains⟩, ?_⟩
  have hpatched : patched scenario grid.1 x y = .ok values := by
    unfold patched
    change (resolved scenario (startOf scenario grid.1) >>= _) = _
    rw [hinputs]
    change (raisingDecimal (changed inputs.toForecastOf grid.xParameter x scenario.toScenarioFields) >>= _) = _
    rw [hfirst]
    change raisingDecimal (changed first grid.yParameter y scenario.toScenarioFields) = _
    rw [hsecond]
    rfl
  unfold cellForecast
  rw [hpatched]
  change (Forecast.modelValidate values >>= _) = _
  rw [modelValidate_isOk hdomains]
  rfl

/-! ### Reverse cells -/

/-- What a cell shares with the outcome of its scenario. -/
structure SameOutcome (cell : SensitivityCell) (r : ScenarioResult) : Prop where
  solve : ∃ result, cell.solve = some result ∧ result.NumEq r.solve
  evaluation : Option.Rel (Evaluation.Related Decimal.NumEq) cell.evaluation r.evaluation
  commonEquity : Option.Rel Decimal.NumEq cell.commonEquity r.commonEquity

/-- Only a reverse grid leaves its start to the scenario. -/
theorem startOf_reverse (houtput : grid.output = .reverseImpliedParameter) : startOf scenario grid.1 = scenario.solve.lower := by
  have haccepted := grid.accepted
  simp only [SensitivityGridFields.roster, boundedDecimals, refuseIf_bind_eq_ok, refuseIf_eq_ok, not_not, houtput, decide_true,
    ne_eq] at haccepted
  rw [startOf, Option.isNone_iff_eq_none.mp haccepted.2.2.2.2]
  rfl

/-- A reverse cell at values of a valid scenario solves and reprices as the scenario does. -/
theorem cellOf_reverse (hpower : ∀ {a b : Decimal}, a.NumEq b → ∀ n, Alike Decimal.NumEq (power a n) (power b n))
    (houtput : grid.output = .reverseImpliedParameter) (hxfits : Fits x) (hyfits : Fits y)
    (hxsolved : scenario.solve.solveVariable.parameter ≠ grid.xParameter)
    (hysolved : scenario.solve.solveVariable.parameter ≠ grid.yParameter)
    (hvalid : (calculateScenario power scenario (.eligible market adjustment target shares)).solve.state ≠ .unavailable)
    (hx : scenario.Holds a grid.xParameter x) (hy : scenario.Holds a grid.yParameter y) :
    SameOutcome (cellOf power scenario (.eligible market adjustment target shares) grid.1 x y)
      (calculateScenario power scenario (.eligible market adjustment target shares)) := by
  obtain ⟨inputs, result, hinputs, hsolve, hrest⟩ := calculateScenario_cases hvalid
  have hstart : startOf scenario grid.1 = scenario.solve.lower := startOf_reverse houtput
  have hx' : scenario.Holds scenario.solve.lower grid.xParameter x := by
    unfold ScenarioFields.Holds
    rwa [Scenario.ownValues_of_ne hxsolved _ a]
  have hy' : scenario.Holds scenario.solve.lower grid.yParameter y := by
    unfold ScenarioFields.Holds
    rwa [Scenario.ownValues_of_ne hysolved _ a]
  have hfade : grid.xParameter = .terminalOperatingMargin ∨ grid.yParameter = .terminalOperatingMargin →
      scenario.solve.solveVariable = .terminalOperatingMargin → FadesFit scenario scenario.solve.lower := by
    rintro (hp | hp) hv
    · exact absurd (by rw [hv, hp]; rfl) hxsolved
    · exact absurd (by rw [hv, hp]; rfl) hysolved
  obtain ⟨values, fc, hcell⟩ := cellForecast_isOk (congrArg Decimal.value hstart) (hstart ▸ hinputs) hinputs hx' hy' hxfits hyfits
    hfade
  obtain ⟨hrelated, hvalues⟩ := related_of_cellForecast (congrArg Decimal.value hstart) hinputs hx' hy' hcell
  have hfc : fc.toForecastOf.Related Decimal.NumEq inputs.toForecastOf := hvalues ▸ hrelated
  obtain ⟨result', hresult', hsame⟩ := (solve_congr hfc scenario.solve target).exists_of_ok_right hsolve
  rcases hrest with ⟨hnone, hscenario⟩ | ⟨b, forecast, evaluated, equity, perShare, hb, hforecast, hevaluated, hequity, _, hscenario⟩
  · have hnone' : result'.representative = none := hsame.representative.trans hnone
    rw [hscenario]
    simp only [cellOf, hcell, houtput, hresult', hnone']
    exact ⟨⟨result', rfl, hsame⟩, .none, .none⟩
  · have hb' : result'.representative = some b := hsame.representative.trans hb
    have hsolved := (changed_solved (resolved_values hinputs) b).trans (resolved_values hforecast)
    obtain ⟨priced, hpriced, hpricedRelated⟩ := (changed_congr hrelated (.refl b) scenario.solve.solveVariable.parameter
      scenario.toScenarioFields).exists_of_ok_right hsolved
    have hfits : ∀ f : Forecast, f.toForecastOf.Every Fits := fun f => every_iff.mpr (ForecastOf.domain_of_domains f.accepted).bounded
    have hpricedFits := every_changed_alike (hvalues ▸ hfits fc) (hfits forecast) hpriced hsolved
    have hdomains := domains_congr hpricedRelated forecast.accepted hpricedFits
    obtain ⟨evaluated', hevaluated', hevaluatedRelated⟩ :=
      Alike.exists_of_ok_right (evaluate_related (forward_congr hpower) hpricedRelated) hevaluated
    obtain ⟨equity', hequity', hequitySame⟩ :=
      Alike.exists_of_ok_right (context.add_congr hevaluatedRelated.operatingEv (.refl adjustment)) hequity
    have hreprice : (do
        let values ← raisingDecimal (changed values scenario.solve.solveVariable.parameter b scenario.toScenarioFields)
        let forecast ← Forecast.modelValidate values
        evaluateRounded power forecast.toForecastOf) = .ok evaluated' := by
      rw [hpriced]
      change (Forecast.modelValidate priced >>= _) = _
      rw [modelValidate_isOk hdomains]
      change raisingDecimal (evaluate (forward power) priced) = _
      rw [hevaluated']
      rfl
    rw [hscenario]
    simp only [cellOf, hcell, houtput, hresult', hb', hreprice, hequity']
    exact ⟨⟨result', rfl, hsame⟩, .some hevaluatedRelated, .some hequitySame⟩

/-! ### Repricing cells -/

/-- A cell that has a forecast reprices to the value per share of its scenario. -/
theorem cellOf_reprice (hpower : ∀ {a b : Decimal}, a.NumEq b → ∀ n, Alike Decimal.NumEq (power a n) (power b n))
    (houtput : grid.output = .conditionalReprice) {forecast fc : Forecast} {values : ForecastOf Decimal}
    {evaluated : Evaluation Decimal} {equity perShare : Decimal} (hcell : cellForecast scenario grid.1 x y = .ok (values, fc))
    (hfc : fc.toForecastOf.Related Decimal.NumEq forecast.toForecastOf)
    (hevaluated : evaluate (forward power) forecast.toForecastOf = .ok evaluated)
    (hequity : context.add evaluated.operatingEv adjustment = .ok equity) (hshare : context.div equity shares = .ok perShare) :
    ∃ value, (cellOf power scenario (.eligible market adjustment target shares) grid.1 x y).value = some value ∧
      value.NumEq perShare := by
  obtain ⟨evaluated', hevaluated', hevaluatedRelated⟩ :=
    Alike.exists_of_ok_right (evaluate_related (forward_congr hpower) hfc) hevaluated
  obtain ⟨equity', hequity', hequitySame⟩ :=
    Alike.exists_of_ok_right (context.add_congr hevaluatedRelated.operatingEv (.refl adjustment)) hequity
  obtain ⟨value, hvalue, hvalueSame⟩ := Alike.exists_of_ok_right (context.div_congr hequitySame (.refl shares)) hshare
  have hreprice : evaluateRounded power fc.toForecastOf = .ok evaluated' := mapError_eq_ok.mpr hevaluated'
  refine ⟨value, ?_, hvalueSame⟩
  simp only [cellOf, hcell, houtput, hreprice, hequity', hvalue]

/-- The start of a repricing cell resolves where the converged parameter does, once the faded margins fit. -/
theorem resolved_start {c : Decimal} {forecast : Forecast} (hcb : c.NumEq b) (hforecast : resolved scenario b = .ok forecast)
    (hc : Fits c) (hfade : scenario.solve.solveVariable = .terminalOperatingMargin → FadesFit scenario b) :
    ∃ inputs, resolved scenario c = .ok inputs := by
  have hown := resolved_values hforecast
  obtain ⟨values, hvalues, hrelated⟩ := resolvedValues_congr scenario.toScenarioFields hcb hown
  have hfits : forecast.toForecastOf.Every Fits := every_iff.mpr (ForecastOf.domain_of_domains forecast.accepted).bounded
  have hvaluesFits := every_changed hfits hc
    (fun _ hv margins => hfade hv c margins ((holds_terminalMargin hv).mpr (Eq.symm hcb)))
    ((changed_solved hown c).trans hvalues)
  have hdomains := domains_congr hrelated forecast.accepted hvaluesFits
  refine ⟨⟨values, hdomains⟩, ?_⟩
  simp only [resolved, hvalues]
  exact modelValidate_isOk hdomains

/-- A repricing cell at the converged parameter and at values of its scenario has the value per share of the scenario, unless a
margin fades through zero. -/
theorem cellOf_conditional (hpower : ∀ {a b : Decimal}, a.NumEq b → ∀ n, Alike Decimal.NumEq (power a n) (power b n))
    (houtput : grid.output = .conditionalReprice) (hxfits : Fits x) (hyfits : Fits y) {c : Decimal}
    (hc : grid.conditionalParameter = some c) (hcfits : Fits c) (hcb : c.NumEq b)
    (hconverged : (calculateScenario power scenario (.eligible market adjustment target shares)).solve.state = .converged)
    (hb : (calculateScenario power scenario (.eligible market adjustment target shares)).solve.representative = some b)
    (hx : scenario.Holds b grid.xParameter x) (hy : scenario.Holds b grid.yParameter y) :
    let cell := cellOf power scenario (.eligible market adjustment target shares) grid.1 x y
    let r := calculateScenario power scenario (.eligible market adjustment target shares)
    (∃ value perShare, cell.value = some value ∧ r.conditionalPerShare = some perShare ∧ value.NumEq perShare) ∨
      cell.value = none ∧ cell.reasons = ["invalid_sensitivity_cell"] ∧
        scenario.solve.solveVariable = .terminalOperatingMargin ∧
        ∃ forecast, resolved scenario b = .ok forecast ∧ ∃ d ∈ forecast.margins, d.value = 0 := by
  dsimp only
  have hvalid : (calculateScenario power scenario (.eligible market adjustment target shares)).solve.state ≠ .unavailable := by
    rw [hconverged]
    decide
  have hstart : startOf scenario grid.1 = c := by rw [startOf, hc, Option.getD_some]
  obtain ⟨inputs, result, _, _, ⟨hnone, hscenario⟩ | ⟨b', forecast, evaluated, equity, perShare, hb', hforecast, hevaluated,
    hequity, hshare, hscenario⟩⟩ := calculateScenario_cases hvalid
  · rw [hscenario] at hb
    cases hnone.symm.trans hb
  · have hresult : result.representative = some b := by rwa [hscenario] at hb
    cases hb'.symm.trans hresult
    cases hcell : cellForecast scenario grid.1 x y with
    | ok pair =>
      obtain ⟨values, fc⟩ := pair
      obtain ⟨hrelated, hvalues⟩ := related_of_cellForecast (congrArg Decimal.value hstart |>.trans hcb) hforecast hx hy hcell
      obtain ⟨value, hvalue, hsame⟩ : ∃ value,
          (cellOf power scenario (.eligible market adjustment target shares) grid.1 x y).value = some value ∧
            value.NumEq perShare := cellOf_reprice hpower houtput hcell (hvalues ▸ hrelated) hevaluated hequity hshare
      exact .inl ⟨value, perShare, hvalue, by rw [hscenario]; rfl, hsame⟩
    | error e =>
      right
      have hrefused : ¬ (scenario.solve.solveVariable = .terminalOperatingMargin → FadesFit scenario b) := by
        intro hfade
        obtain ⟨inputs, hinputs⟩ := resolved_start hcb hforecast hcfits hfade
        obtain ⟨values, fc, hok⟩ := cellForecast_isOk (congrArg Decimal.value hstart |>.trans hcb) (hstart ▸ hinputs) hforecast hx hy
          hxfits hyfits fun _ => hfade
        rw [hcell] at hok
        cases hok
      push Not at hrefused
      obtain ⟨hv, hfade⟩ := hrefused
      refine ⟨by simp only [cellOf, hcell], by simp only [cellOf, hcell], hv, forecast, hforecast, ?_⟩
      by_contra hne
      push Not at hne
      exact hfade (fadesFit_of_ne_zero hv hforecast hne)

/-! ### Grids of accepted assumptions -/

/-- The scenario of a name is found among scenarios with different names. -/
theorem find?_of_nodup {scenarios : List Scenario} (hnames : (scenarios.map (·.name)).Nodup) (hmem : scenario ∈ scenarios) :
    scenarios.find? (fun s => s.name = scenario.name) = some scenario := by
  induction scenarios with
  | nil => cases hmem
  | cons s rest ih =>
    rw [List.map_cons, List.nodup_cons] at hnames
    rcases List.mem_cons.mp hmem with rfl | hmem
    · exact List.find?_cons_of_pos (by simp)
    · rw [List.find?_cons_of_neg, ih hnames.2 hmem]
      intro heq
      exact hnames.1 (of_decide_eq_true heq ▸ List.mem_map_of_mem hmem)

/-- What accepted assumptions promise of their grids. -/
structure Assumptions.Promises (assumptions : Assumptions) (grid : SensitivityGrid) : Prop where
  names : (assumptions.scenarios.map (·.name)).Nodup
  reference : grid.referenceScenario ∈ assumptions.scenarios.map (·.name)
  solved : grid.output = .reverseImpliedParameter → ∀ s ∈ assumptions.scenarios,
    s.solve.solveVariable.parameter ≠ grid.xParameter ∧ s.solve.solveVariable.parameter ≠ grid.yParameter

/-- The check of assumptions establishes what they promise. -/
theorem promises_of_accepted (assumptions : Assumptions) (hgrid : grid ∈ assumptions.sensitivities) :
    assumptions.Promises grid := by
  have haccepted := assumptions.accepted
  simp only [AssumptionFields.completeness, refuseIf_bind_eq_ok, not_or, not_not] at haccepted
  obtain ⟨hsome, -, ⟨hnames, hcommon⟩, -, hreference, -⟩ := haccepted
  push Not at hreference
  refine ⟨hnames, (hreference grid hgrid).1, fun houtput s hs => ?_⟩
  have hfirst := List.head?_eq_some_head (List.ne_nil_of_mem hs)
  have hne := (hreference grid hgrid).2 houtput _ hfirst
  rwa [hcommon _ (List.mem_of_mem_head? hfirst) s hs] at hne

/-- The inputs of an accepted grid fit. -/
theorem fits_of_grid (grid : SensitivityGrid) :
    (∀ x ∈ grid.xValues, Fits x) ∧ (∀ y ∈ grid.yValues, Fits y) ∧ ∀ c ∈ grid.conditionalParameter, Fits c := by
  have haccepted := grid.accepted
  simp only [SensitivityGridFields.roster, boundedDecimals, refuseIf_bind_eq_ok, not_not] at haccepted
  obtain ⟨-, -, hbounded, -⟩ := haccepted
  refine ⟨fun x hx => fits_of_bounded (hbounded x ?_), fun y hy => fits_of_bounded (hbounded y ?_),
    fun c hc => fits_of_bounded (hbounded c ?_)⟩
  · exact List.mem_append_left _ (List.mem_append_left _ hx)
  · exact List.mem_append_left _ (List.mem_append_right _ hy)
  · exact List.mem_append_right _ (Option.mem_toList.mpr hc)

/-- Cells at the values of their scenario agree with it: a reverse cell of a scenario with valid inputs has its solve, its
evaluation and its common equity, and a repricing cell at the converged parameter has its value per share, unless a margin fades
through zero and the cell is refused. -/
theorem sensitivity_cells_agree (power : Decimal → ℕ → Except DecimalException Decimal)
    (hpower : ∀ {a b : Decimal}, a.NumEq b → ∀ n, Alike Decimal.NumEq (power a n) (power b n)) (assumptions : Assumptions)
    (grid : SensitivityGrid) (hgrid : grid ∈ assumptions.sensitivities) (market adjustment target shares x y : Decimal)
    (hx : x ∈ grid.xValues) (hy : y ∈ grid.yValues) :
    ∃ scenario ∈ assumptions.scenarios, scenario.name = grid.referenceScenario ∧
      ∃ cell, calculateSensitivityCell power assumptions.1 (.eligible market adjustment target shares) grid.1 x y = some cell ∧
        let r := calculateScenario power scenario (.eligible market adjustment target shares)
        (grid.output = .reverseImpliedParameter → r.solve.state ≠ .unavailable → ∀ a,
          scenario.Holds a grid.xParameter x → scenario.Holds a grid.yParameter y → SameOutcome cell r) ∧
        (grid.output = .conditionalReprice → r.solve.state = .converged → ∀ b c, r.solve.representative = some b →
          grid.conditionalParameter = some c → c.NumEq b →
          scenario.Holds b grid.xParameter x → scenario.Holds b grid.yParameter y →
          (∃ value perShare, cell.value = some value ∧ r.conditionalPerShare = some perShare ∧ value.NumEq perShare) ∨
            cell.value = none ∧ cell.reasons = ["invalid_sensitivity_cell"] ∧
              scenario.solve.solveVariable = .terminalOperatingMargin ∧
              ∃ forecast, resolved scenario b = .ok forecast ∧ ∃ d ∈ forecast.margins, d.value = 0) := by
  obtain ⟨hnames, hreference, hsolved⟩ := promises_of_accepted assumptions hgrid
  obtain ⟨scenario, hscenario, hname⟩ := List.mem_map.mp hreference
  obtain ⟨hxfits, hyfits, hcfits⟩ := fits_of_grid grid
  refine ⟨scenario, hscenario, hname, cellOf power scenario (.eligible market adjustment target shares) grid.1 x y, ?_, ?_, ?_⟩
  · unfold calculateSensitivityCell
    rw [← hname, find?_of_nodup hnames hscenario]
    rfl
  · intro houtput hvalid a hax hay
    obtain ⟨hxsolved, hysolved⟩ := hsolved houtput scenario hscenario
    exact cellOf_reverse hpower houtput (hxfits x hx) (hyfits y hy) hxsolved hysolved hvalid hax hay
  · intro houtput hconverged b c hb hc hcb hbx hby
    exact cellOf_conditional hpower houtput (hxfits x hx) (hyfits y hy) hc (hcfits c hc) hcb hconverged hb hbx hby

/-! ### Samples -/

/-- A reverse grid over the cost of capital and the terminal growth. -/
def axesGrid (wacc terminalGrowth : Decimal) : SensitivityGridFields :=
  ⟨"axes", "base", .reverseImpliedParameter, .wacc, [wacc], .terminalGrowth, [terminalGrowth], none⟩

/-- A grid that reprices at a given parameter. -/
def repriceGrid (parameter : AxisParameter) (x wacc conditional : Decimal) : SensitivityGridFields :=
  ⟨"reprice", "base", .conditionalReprice, parameter, [x], .wacc, [wacc], some conditional⟩

/-- A reverse grid at the values of the scenario at the edge. -/
def edgeAxes : SensitivityGrid := ⟨axesGrid (.ofInt 1) (.ofInt 0), by decide +kernel⟩

/-- A grid that reprices at the growth of the scenario at the edge. -/
def edgeReprice : SensitivityGrid :=
  ⟨repriceGrid .revenueCagr ⟨false, 25, -2⟩ (.ofInt 1) ⟨false, 250, -3⟩, by decide +kernel⟩

/-- The growth scenario at the edge with two grids at its own values. -/
def edgeAssumptions : Assumptions where
  scenarios := [edgeScenario]
  sensitivities := [edgeAxes, edgeReprice]
  accepted := by decide +kernel

/-- A scenario whose terminal growth reaches its cost of capital. -/
def boundlessScenario : Scenario :=
  { edgeScenario with terminalGrowth := .ofInt 1, accepted := by decide +kernel }

/-- The boundless scenario with a reverse grid at its own values. -/
def boundlessAssumptions : Assumptions where
  scenarios := [boundlessScenario]
  sensitivities := [⟨axesGrid (.ofInt 1) (.ofInt 1), by decide +kernel⟩]
  accepted := by decide +kernel

/-- A margin scenario that fades from a margin of zero, with a first weight of a low exponent. -/
def fadingScenario : Scenario where
  name := "base"
  revenueAnchor := .ofInt 5000
  growth := some (List.replicate 5 (.ofInt 0))
  margins := none
  taxes := List.replicate 5 (.ofInt 0)
  reinvestment := some (List.replicate 5 (.ofInt 0))
  wacc := .ofInt 1
  riskFree := ⟨false, 5, -2⟩
  terminalGrowth := .ofInt 0
  terminalMargin := none
  terminalTax := .ofInt 0
  terminalRoic := .ofInt 1
  solve :=
    { solveVariable := .terminalOperatingMargin
      lower := ⟨false, 25, -2⟩
      upper := ⟨false, 75, -2⟩
      absoluteTolerance := .ofInt 1000
      relativeTolerance := .ofInt 0
      widthTolerance := ⟨false, 5, -1⟩
      maxIterations := 8
      maxSubdivisions := 8
      maxEvaluations := 8
      marginWeights := [⟨false, 0, -70⟩, .ofInt 0, .ofInt 0, .ofInt 0, .ofInt 1]
      anchorMargin := some (.ofInt 0)
      accepted := by decide +kernel }
  accepted := by decide +kernel

/-- The forecast of the fading scenario at the lower end. -/
def fadingStart : Forecast where
  toForecastOf := fadingScenario.filled ⟨false, 25, -2⟩
    [⟨false, 0, -72⟩, ⟨false, 0, -2⟩, ⟨false, 0, -2⟩, ⟨false, 0, -2⟩, ⟨false, 25, -2⟩]
  accepted := by decide +kernel

/-- The forecast of the fading scenario at the solved margin. -/
def fadingSolved : Forecast where
  toForecastOf := fadingScenario.filled ⟨false, 50, -2⟩
    [⟨false, 0, -72⟩, ⟨false, 0, -2⟩, ⟨false, 0, -2⟩, ⟨false, 0, -2⟩, ⟨false, 50, -2⟩]
  accepted := by decide +kernel

/-- The fading scenario resolves at both margins. -/
theorem resolved_fading : resolved fadingScenario fadingScenario.solve.lower = .ok fadingStart ∧
    resolved fadingScenario ⟨false, 50, -2⟩ = .ok fadingSolved := by
  have hresolved : ∀ {p : Decimal} {f : Forecast} (margins : List Decimal), fadingScenario.marginsOf p = .ok margins →
      f.toForecastOf = fadingScenario.filled p margins → resolved fadingScenario p = .ok f := by
    intro p f margins hmargins hf
    simp only [resolved, resolvedValues_eq_ok.mpr ⟨margins, hmargins, hf⟩]
    exact modelValidate_isOk f.accepted
  constructor
  · exact hresolved _ (toOption_eq_some.mp (by decide +kernel)) rfl
  · exact hresolved _ (toOption_eq_some.mp (by decide +kernel)) rfl

/-- The fading scenario converges at its solved margin. -/
theorem solve_fading : ∃ result, solve fadingStart fadingScenario.solve (.ofInt 150) = .ok result ∧ result.state = .converged ∧
    result.representative = some ⟨false, 50, -2⟩ := by
  obtain ⟨result, hresult, hconverged, hb, -⟩ := Solver.run_converges ⟨fadingStart, fadingScenario.solve, .ofInt 150⟩ (-1) (.ofInt 1000)
    ⟨false, 50, -2⟩ (by decide) (by decide +kernel) (by decide) (by decide +kernel) (by decide +kernel) (by decide +kernel)
    (by decide +kernel) (by decide +kernel)
  rw [solve, if_neg fun hmargin => hmargin.2 rfl]
  exact ⟨result, hresult, hconverged, hb⟩

/-- The solved margin with forty digits. -/
def paddedHalf : Decimal := ⟨false, 5 * 10 ^ 39, -40⟩

/-- The fading scenario with a grid that reprices at the padded margin. -/
def fadingAssumptions : Assumptions where
  scenarios := [fadingScenario]
  sensitivities := [⟨repriceGrid .terminalGrowth (.ofInt 0) (.ofInt 1) paddedHalf, by decide +kernel⟩]
  accepted := by decide +kernel

/-- A reverse cell of an invalid scenario has no solve, though the scenario's is unavailable; and a repricing cell is refused for
the exponent of a margin of zero, though the scenario has converged. -/
theorem cells_disagree : bridge edgeManifest = .ok edgeLinked ∧
    (∃ cell, calculateSensitivityCell roundedPower boundlessAssumptions.1 edgeLinked (axesGrid (.ofInt 1) (.ofInt 1)) (.ofInt 1)
        (.ofInt 1) = some cell ∧
      boundlessScenario.Holds boundlessScenario.solve.lower .wacc (.ofInt 1) ∧
      boundlessScenario.Holds boundlessScenario.solve.lower .terminalGrowth (.ofInt 1) ∧
      ¬ ∃ result, cell.solve = some result ∧
        result.NumEq (calculateScenario roundedPower boundlessScenario edgeLinked).solve) ∧
    ∃ b perShare, (calculateScenario roundedPower fadingScenario edgeLinked).solve.state = .converged ∧
      (calculateScenario roundedPower fadingScenario edgeLinked).solve.representative = some b ∧
      (calculateScenario roundedPower fadingScenario edgeLinked).conditionalPerShare = some perShare ∧ paddedHalf.NumEq b ∧
      fadingScenario.Holds b .terminalGrowth (.ofInt 0) ∧ fadingScenario.Holds b .wacc (.ofInt 1) ∧
      ∃ cell, calculateSensitivityCell roundedPower fadingAssumptions.1 edgeLinked
        (repriceGrid .terminalGrowth (.ofInt 0) (.ofInt 1) paddedHalf) (.ofInt 0) (.ofInt 1) = some cell ∧ cell.value = none := by
  refine ⟨bridge_edge, ?_, ?_⟩
  · have hcell : (calculateSensitivityCell roundedPower boundlessAssumptions.1 edgeLinked (axesGrid (.ofInt 1) (.ofInt 1)) (.ofInt 1)
        (.ofInt 1)).map (·.solve) = some none := by
      decide +kernel
    obtain ⟨cell, hsome, hnone⟩ := Option.map_eq_some_iff.mp hcell
    refine ⟨cell, hsome, by decide +kernel, by decide +kernel, ?_⟩
    rintro ⟨result, hresult, _⟩
    cases hnone.symm.trans hresult
  · obtain ⟨result, hresult, hconverged, hb⟩ := solve_fading
    have hprice : (do
        let evaluated ← evaluate (forward roundedPower) fadingSolved.toForecastOf
        let equity ← context.add evaluated.operatingEv (.ofInt 0)
        context.div equity (.ofInt 10)).toOption.isSome = true := by
      decide +kernel
    obtain ⟨perShare, hperShare⟩ := Option.isSome_iff_exists.mp hprice
    obtain ⟨hsolve, hshare⟩ : (calculateScenario roundedPower fadingScenario edgeLinked).solve = result ∧
        (calculateScenario roundedPower fadingScenario edgeLinked).conditionalPerShare = some perShare :=
      calculateScenario_of_parts resolved_fading.1 hresult hb resolved_fading.2
        (toOption_eq_some.mp hperShare)
    rw [← hsolve] at hconverged hb
    have hcell : (calculateSensitivityCell roundedPower fadingAssumptions.1 edgeLinked
        (repriceGrid .terminalGrowth (.ofInt 0) (.ofInt 1) paddedHalf) (.ofInt 0) (.ofInt 1)).map (·.value) = some none := by
      decide +kernel
    obtain ⟨cell, hsome, hnone⟩ := Option.map_eq_some_iff.mp hcell
    exact ⟨_, perShare, hconverged, hb, hshare, by decide +kernel, by decide +kernel, by decide +kernel, cell, hsome, hnone⟩

/-- Powers that are rounded once read the value of the base only. -/
theorem roundedPower_congr (h : a.NumEq b) (n : ℕ) : Alike Decimal.NumEq (roundedPower a n) (roundedPower b n) := by
  have hexact : ∀ d : Decimal, d.value ^ n = Context.signFactor (d.negative && n % 2 == 1) *
      (((d.coefficient ^ n : ℕ) : ℚ) / (1 : ℕ) * (10 : ℚ) ^ (d.exponent * n)) := by
    intro d
    have hsign : Context.signFactor d.negative ^ n = Context.signFactor (d.negative && n % 2 == 1) := by
      rcases Nat.mod_two_eq_zero_or_one n with hn | hn
      · cases d.negative <;> simp [Context.signFactor, hn, (Nat.even_iff.mpr hn).neg_one_pow]
      · cases d.negative <;> simp [Context.signFactor, hn, (Nat.odd_iff.mpr hn).neg_one_pow]
    rw [Context.value_eq, mul_pow, mul_pow, hsign, zpow_mul, zpow_natCast]
    push_cast
    ring
  exact context.finish_congr Nat.one_pos Nat.one_pos (by rw [← hexact, ← hexact, h])

/-- Both grids at the edge agree with their scenario. -/
theorem sensitivity_cells_agree_edge :
    (∃ cell, calculateSensitivityCell roundedPower edgeAssumptions.1 edgeLinked edgeAxes.1 (.ofInt 1) (.ofInt 0) = some cell ∧
      SameOutcome cell (calculateScenario roundedPower edgeScenario edgeLinked)) ∧
    ∃ cell, calculateSensitivityCell roundedPower edgeAssumptions.1 edgeLinked edgeReprice.1 ⟨false, 25, -2⟩ (.ofInt 1) = some cell ∧
      ∃ value perShare, cell.value = some value ∧
        (calculateScenario roundedPower edgeScenario edgeLinked).conditionalPerShare = some perShare ∧ value.NumEq perShare := by
  obtain ⟨hconverged, hrepresentative, -⟩ := calculateScenario_edge
  unfold edgeLinked at hconverged hrepresentative ⊢
  constructor
  · obtain ⟨scenario, hscenario, -, cell, hcell, hreverse, -⟩ := sensitivity_cells_agree roundedPower roundedPower_congr
      edgeAssumptions edgeAxes List.mem_cons_self (.ofInt 150) (.ofInt 0) (.ofInt 150) (.ofInt 10) (.ofInt 1) (.ofInt 0)
      List.mem_cons_self List.mem_cons_self
    cases List.mem_singleton.mp hscenario
    refine ⟨cell, hcell, hreverse rfl ?_ edgeScenario.solve.lower (by decide +kernel) (by decide +kernel)⟩
    rw [hconverged]
    decide
  · obtain ⟨scenario, hscenario, -, cell, hcell, -, hreprice⟩ := sensitivity_cells_agree roundedPower roundedPower_congr
      edgeAssumptions edgeReprice (List.mem_cons_of_mem _ List.mem_cons_self) (.ofInt 150) (.ofInt 0) (.ofInt 150) (.ofInt 10)
      ⟨false, 25, -2⟩ (.ofInt 1) List.mem_cons_self List.mem_cons_self
    cases List.mem_singleton.mp hscenario
    refine ⟨cell, hcell, ?_⟩
    rcases hreprice rfl hconverged edgeRepresentative ⟨false, 250, -3⟩ hrepresentative rfl (by decide +kernel) (by decide +kernel)
      (by decide +kernel) with hsame | ⟨_, _, hmargin, _⟩
    · exact hsame
    · cases hmargin

end EquityEval.Valuation
