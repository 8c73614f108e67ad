import EquityEval.Valuation.Bridge

/-!
# Reverse, then forward

A converged solve comes with a bracket on which the exact residual is within the tolerance.
For a scenario the exact residual is the exact forward value minus the target, so repricing at
the representative gives the market value back, up to the tolerance and to what the rounded
bridge has lost.
-/

namespace EquityEval.Valuation

open DecimalArithmetic IntervalCalculus Set

/-- Rounded arithmetic of the forward model; the rounding of powers is left to the caller. -/
def forward (power : Decimal → ℕ → Except DecimalException Decimal) :
    ForwardSystem (Except DecimalException) Decimal where
  toNumberSystem := rounded context
  power
  exceeds a d := decide (d < a)

/-- The result in place of a solve that did not happen. -/
def unavailable (reasons : List String) : SolveResult where
  state := .unavailable
  representative := none
  interval := none
  residual := none
  rootIntervals := []
  unresolvedDomains := []
  proof := []
  evaluations := 0
  subdivisions := 0
  iterations := 0
  reasons
  accepted := by simp [SolveResultFields.scalarRequiresCertificate]

/-- The outcome of a scenario. -/
structure ScenarioResult where
  name : String
  solveVariable : Variable
  solve : SolveResult
  evaluation : Option (Evaluation Decimal)
  commonEquity : Option Decimal
  conditionalPerShare : Option Decimal
  reasons : List String
deriving DecidableEq, Repr

/-- The outcome with its collected reasons. -/
def scenarioResult (scenario : Scenario) (result : SolveResult) (evaluated : Option (Evaluation Decimal))
    (equity perShare : Option Decimal) : ScenarioResult where
  name := scenario.name
  solveVariable := scenario.solve.solveVariable
  solve := result
  evaluation := evaluated
  commonEquity := equity
  conditionalPerShare := perShare
  reasons := result.reasons ++ (evaluated.elim [] (·.reasons)) ++
    reasonIf (∃ e ∈ equity, e ≤ .ofInt 0) "nonpositive_common_equity"

/-- Solve a scenario for the bridge's target and reprice it at the representative.

A later exception keeps what was evaluated before it, but not the solve. -/
def calculateScenario (power : Decimal → ℕ → Except DecimalException Decimal) (scenario : Scenario)
    (linked : BridgeResult) : ScenarioResult :=
  let invalid := unavailable ["invalid_model_inputs"]
  match linked with
  | .ineligible reasons => scenarioResult scenario (unavailable reasons) none none none
  | .eligible _ adjustment target shares =>
    match resolved scenario scenario.solve.lower >>= fun inputs => solve inputs scenario.solve target with
    | .error _ => scenarioResult scenario invalid none none none
    | .ok result =>
      match result.representative with
      | none => scenarioResult scenario result none none none
      | some x =>
        match resolved scenario x >>= fun inputs =>
            (evaluate (forward power) inputs.toForecastOf).mapError fun e => .numeric (.decimal e) with
        | .error _ => scenarioResult scenario invalid none none none
        | .ok evaluated =>
          match context.add evaluated.operatingEv adjustment with
          | .error _ => scenarioResult scenario invalid (some evaluated) none none
          | .ok equity =>
            match context.div equity shares with
            | .error _ => scenarioResult scenario invalid (some evaluated) (some equity) none
            | .ok perShare => scenarioResult scenario result (some evaluated) (some equity) (some perShare)

/-- A scenario that resolves at its lower end and at the representative has the solve and the value per share of the parts. -/
theorem calculateScenario_of_parts {power : Decimal → ℕ → Except DecimalException Decimal} {scenario : Scenario}
    {market adjustment target shares b perShare : Decimal} {inputs forecast : Forecast} {result : SolveResult}
    (hinputs : resolved scenario scenario.solve.lower = .ok inputs) (hsolve : solve inputs scenario.solve target = .ok result)
    (hb : result.representative = some b) (hforecast : resolved scenario b = .ok forecast)
    (hshare : (do
      let evaluated ← evaluate (forward power) forecast.toForecastOf
      let equity ← context.add evaluated.operatingEv adjustment
      context.div equity shares) = .ok perShare) :
    let r := calculateScenario power scenario (.eligible market adjustment target shares)
    r.solve = result ∧ r.conditionalPerShare = some perShare := by
  obtain ⟨evaluated, hevaluated, hshare⟩ := exists_of_bind_eq_ok hshare
  obtain ⟨equity, hequity, hshare⟩ := exists_of_bind_eq_ok hshare
  have hresult : (resolved scenario scenario.solve.lower >>= fun inputs => solve inputs scenario.solve target) = .ok result := by
    rw [hinputs]
    exact hsolve
  have hreprice : (resolved scenario b >>= fun inputs =>
      (evaluate (forward power) inputs.toForecastOf).mapError fun e => .numeric (.decimal e)) = .ok evaluated := by
    rw [hforecast]
    exact mapError_eq_ok.mpr hevaluated
  simp only [calculateScenario, hresult, hb, hreprice, hequity, hshare, scenarioResult, and_self]

/-- A converged scenario has solved the forecast that its lower bound resolves. -/
theorem solve_of_calculateScenario {power : Decimal → ℕ → Except DecimalException Decimal} {scenario : Scenario}
    {market adjustment target shares : Decimal} {r : SolveResult}
    (h : (calculateScenario power scenario (.eligible market adjustment target shares)).solve = r)
    (hstate : r.state = .converged) : ∃ inputs, resolved scenario scenario.solve.lower = .ok inputs ∧
      solve inputs scenario.solve target = .ok r := by
  have hinvalid : (unavailable ["invalid_model_inputs"]).state ≠ .converged := by simp [unavailable]
  unfold calculateScenario at h
  dsimp only at h
  split at h
  · subst h
    exact absurd hstate hinvalid
  · rename_i result hresult
    suffices hr : result = r by
      obtain ⟨inputs, hinputs, hsolve⟩ := exists_of_bind_eq_ok hresult
      exact ⟨inputs, hinputs, hr ▸ hsolve⟩
    split at h
    · exact h
    split at h
    · subst h
      exact absurd hstate hinvalid
    split at h
    · subst h
      exact absurd hstate hinvalid
    split at h
    · subst h
      exact absurd hstate hinvalid
    · exact h

namespace Solver

variable {s : Solver}

/-- The single root of a conclusive state is refined, and its residual is the recorded one. -/
theorem Conclusive.refined {st : LoopState} (h : s.Conclusive st) {root : Bounds} (hroots : st.roots = [root]) :
    ∃ residual leftSign, st.residuals = [residual] ∧ s.Refined leftSign root residual := by
  obtain ⟨roots, hevidence, heq, hresiduals⟩ := h.inv.evidence
  rw [hroots] at heq
  obtain ⟨⟨bracket, residual⟩, hone, rfl⟩ := List.map_eq_singleton_iff.mp heq.symm
  obtain ⟨p, _, hp⟩ := exists_proof hevidence (r := (bracket, residual)) (by rw [hone]; simp)
  obtain ⟨leftSign, _, hrefined⟩ := hp.uniqueRoot.refined
  exact ⟨residual, leftSign, by rw [hresiduals, hone]; rfl, hrefined⟩

end Solver

/-- What a converged solve presents. -/
structure Certificate (inputs : Forecast) (spec : SolveSpec) (target : Decimal) (r : SolveResult) (i e : Interval)
    (x tolerance : Decimal) : Prop where
  interval : r.interval = some i
  representative : r.representative = some x
  residual : r.residual = some e
  tolerated : Solver.tolerance ⟨inputs, spec, target⟩ = .ok tolerance
  inDomain : spec.lower ≤ i.lower ∧ i.upper ≤ spec.upper
  narrow : ∃ width, context.sub i.upper i.lower = .ok width ∧ width ≤ spec.widthTolerance
  between : i.lower ≤ x ∧ x ≤ i.upper
  enclosed : ∀ y ∈ Icc (i.lower.value : ℝ) i.upper.value,
    exactResidual inputs.toForecastOf spec.toSolveSpecFields target y ∈ Icc (e.lower.value : ℝ) e.upper.value
  within : ∀ y ∈ Icc (i.lower.value : ℝ) i.upper.value,
    |exactResidual inputs.toForecastOf spec.toSolveSpecFields target y| ≤ tolerance.value

/-- A converged solve has its certificate. -/
theorem exists_certificate {inputs : Forecast} {spec : SolveSpec} {target : Decimal} {r : SolveResult}
    (h : solve inputs spec target = .ok r) (hstate : r.state = .converged) :
    ∃ i e x tolerance, Certificate inputs spec target r i e x tolerance := by
  obtain ⟨reason, hreports, hinv⟩ := Solver.run_reports (Solver.run_of_solve h)
  set s : Solver := ⟨inputs, spec, target⟩
  have houtcome := hreports.state
  rw [hstate] at houtcome
  have hconclusive : s.Conclusive s.explore.2 :=
    Solver.conclusive_of_reports hinv (Solver.reasons_nil_of_outcome (by rw [← houtcome]; simp))
  obtain ⟨root, hroots⟩ := Solver.roots_of_converged houtcome.symm
  obtain ⟨residual, leftSign, hresiduals, hrefined⟩ := hconclusive.refined hroots
  have hinterval := hreports.interval
  have hresidual := hreports.residual
  rw [Solver.chosenRoot, if_pos houtcome.symm, hroots] at hinterval
  rw [if_pos houtcome.symm, hresiduals] at hresidual
  obtain ⟨i, hi, rfl⟩ := Option.map_eq_some_iff.mp hinterval
  obtain ⟨e, he, rfl⟩ := Option.map_eq_some_iff.mp hresidual
  obtain ⟨slopes, henclosed⟩ := hrefined.encloses
  obtain ⟨tolerance, htolerance, haccepted⟩ := hrefined.accepted
  obtain ⟨hnarrow, hlo, hhi⟩ := Solver.accepts_eq_true hrefined.representable haccepted
  have hbounded : ∀ y ∈ Icc (i.lower.value : ℝ) i.upper.value, |s.f y| ≤ tolerance.value := by
    intro y hy
    have hmem := henclosed.value hy
    have hlo' : -(tolerance.value : ℝ) ≤ e.lower.value := by exact_mod_cast (abs_le.mp hlo).1
    have hhi' : (e.upper.value : ℝ) ≤ tolerance.value := by exact_mod_cast (abs_le.mp hhi).2
    exact abs_le.mpr ⟨hlo'.trans hmem.1, hmem.2.trans hhi'⟩
  have haccept := r.accepted
  unfold SolveResultFields.scalarRequiresCertificate at haccept
  rw [if_pos hstate, hi, he] at haccept
  split at haccept
  · rename_i x j _ hx hj _
    cases hj
    rw [refuseIf_eq_ok, not_or, not_not] at haccept
    exact ⟨i, e, x, tolerance,
      { interval := hi
        representative := hx
        residual := he
        tolerated := htolerance
        inDomain := ⟨hrefined.signs.lo_inDomain.1, hrefined.signs.hi_inDomain.2⟩
        narrow := hnarrow
        between := haccept.1
        enclosed := fun y hy => henclosed.value hy
        within := hbounded }⟩
  · cases haccept

/-- Every partial sum of the signed claims and the target itself fit in eighty digits. -/
def BridgeFits (manifest : ValuationManifest) (market : Decimal) : Prop :=
  (∀ k, context.Representable ((manifest.claims.map ManifestFields.exactAmount).take k).sum) ∧
    context.Representable (market.value - manifest.exactAdjustment)

/-- What the rounded bridge has lost of the exact target. -/
def bridgeLoss (manifest : ValuationManifest) (market target : Decimal) : ℚ :=
  |target.value - (market.value - manifest.exactAdjustment)|

/-- A bridge that fits in eighty digits loses nothing. -/
theorem bridgeLoss_eq_zero {manifest : ValuationManifest} {market adjustment target shares price : Decimal}
    (h : manifest.Linked market adjustment target shares price) (hfits : BridgeFits manifest market) :
    bridgeLoss manifest market target = 0 := by
  have hsum := ValuationManifest.adjustment_exact h.summed hfits.1
  have hrounds := Context.sub_rounds (by decide) h.target_rounded
  rw [hsum] at hrounds
  rw [bridgeLoss, hrounds.exact hfits.2, sub_self, abs_zero]

/-- The exact value of the common shares when a scenario is repriced at a parameter. -/
def exactEquity (manifest : ValuationManifest) (scenario : Scenario) (x : Decimal) : ℚ :=
  exactOperatingEv scenario.toScenarioFields x.value + manifest.exactAdjustment

/-- A certified representative prices the shares back within the tolerance and the loss of the bridge. -/
theorem Certificate.equity {manifest : ValuationManifest} {scenario : Scenario} {inputs : Forecast}
    {market adjustment target shares price : Decimal} {r : SolveResult} {i e : Interval} {x tolerance : Decimal}
    (h : Certificate inputs scenario.solve target r i e x tolerance)
    (hinputs : resolved scenario scenario.solve.lower = .ok inputs)
    (hlinked : manifest.Linked market adjustment target shares price) :
    |exactEquity manifest scenario x - market.value| ≤ tolerance.value + bridgeLoss manifest market target ∧
      |exactEquity manifest scenario x / shares.value - price.value| ≤
        (tolerance.value + bridgeLoss manifest market target) / shares.value := by
  have hmem : ((x.value : ℚ) : ℝ) ∈ Icc (i.lower.value : ℝ) i.upper.value :=
    ⟨by exact_mod_cast h.between.1, by exact_mod_cast h.between.2⟩
  have hresidual : |exactOperatingEv scenario.toScenarioFields x.value - target.value| ≤ tolerance.value := by
    have hwithin := h.within _ hmem
    rw [exactResidual_cast, residual_eq_operatingEv (fills_of_resolved hinputs), Rat.cast_id] at hwithin
    exact_mod_cast hwithin
  have hequity : |exactEquity manifest scenario x - market.value| ≤
      tolerance.value + bridgeLoss manifest market target := by
    have hsplit : exactEquity manifest scenario x - market.value =
        (exactOperatingEv scenario.toScenarioFields x.value - target.value) +
          (target.value - (market.value - manifest.exactAdjustment)) := by
      unfold exactEquity
      ring
    rw [hsplit]
    exact (abs_add_le _ _).trans (add_le_add hresidual le_rfl)
  refine ⟨hequity, ?_⟩
  have hshare : exactEquity manifest scenario x / shares.value - price.value =
      (exactEquity manifest scenario x - market.value) / shares.value := by
    rw [hlinked.market_exact, sub_div, mul_div_cancel_right₀ _ hlinked.shares_pos.ne']
  rw [hshare, abs_div, abs_of_pos hlinked.shares_pos]
  exact div_le_div_of_nonneg_right hequity hlinked.shares_pos.le

/-- A converged solve is certified, and a converged scenario prices its shares back. -/
theorem reverse_then_forward :
    (∀ inputs spec target r, solve inputs spec target = .ok r → r.state = .converged →
      ∃ i e x tolerance, Certificate inputs spec target r i e x tolerance) ∧
    ∀ power manifest scenario market adjustment target shares r,
      bridge manifest = .ok (.eligible market adjustment target shares) →
      (calculateScenario power scenario (.eligible market adjustment target shares)).solve = r →
      r.state = .converged →
      ∃ inputs x tolerance price, r.representative = some x ∧ manifest.price.value = some price ∧
        Solver.tolerance ⟨inputs, scenario.solve, target⟩ = .ok tolerance ∧
        |exactEquity manifest scenario x - market.value| ≤ tolerance.value + bridgeLoss manifest market target ∧
        |exactEquity manifest scenario x / shares.value - price.value| ≤
          (tolerance.value + bridgeLoss manifest market target) / shares.value ∧
        (BridgeFits manifest market → bridgeLoss manifest market target = 0) := by
  constructor
  · intro inputs spec target r h hstate
    exact exists_certificate h hstate
  · intro power manifest scenario market adjustment target shares r hbridge hr hstate
    obtain ⟨inputs, hinputs, hsolve⟩ := solve_of_calculateScenario hr hstate
    obtain ⟨price, hlinked⟩ := ValuationManifest.linked_of_bridge hbridge
    obtain ⟨i, e, x, tolerance, hcertificate⟩ := exists_certificate hsolve hstate
    obtain ⟨hequity, hshare⟩ := hcertificate.equity hinputs hlinked
    exact ⟨inputs, x, tolerance, price, hcertificate.representative, hlinked.quoted, hcertificate.tolerated,
      hequity, hshare, bridgeLoss_eq_zero hlinked⟩

/-- A growth scenario whose lower end is just below zero. -/
def edgeScenario : Scenario where
  name := "base"
  revenueAnchor := .ofInt 100
  growth := none
  margins := some (List.replicate 5 (.ofInt 1))
  taxes := List.replicate 5 (.ofInt 0)
  reinvestment := some (List.replicate 5 (.ofInt 0))
  wacc := .ofInt 1
  riskFree := ⟨false, 5, -2⟩
  terminalGrowth := .ofInt 0
  terminalMargin := some (.ofInt 1)
  terminalTax := .ofInt 0
  terminalRoic := .ofInt 1
  solve :=
    { solveVariable := .revenueCagr
      lower := ⟨true, 1, -100⟩
      upper := ⟨false, 5, -1⟩
      absoluteTolerance := .ofInt 1000
      relativeTolerance := .ofInt 0
      widthTolerance := ⟨false, 5, -1⟩
      maxIterations := 8
      maxSubdivisions := 8
      maxEvaluations := 8
      marginWeights := []
      anchorMargin := none
      accepted := by decide +kernel }
  accepted := by decide +kernel

/-- A claim that an owner has reviewed on the valuation day. -/
def edgeClaim (kind : ClaimKind) (amount : Decimal) : ClaimFields where
  kind
  coverage := some (ClaimKind.all.map fun component =>
    ⟨component, if component = kind then .included else .excluded, some "evidence"⟩)
  economicClaimIds := [kind.name]
  state := .eligibleAmount
  amount := some amount
  currency := "USD"
  asOf := 0
  knownAt := 0
  capturedAt := 0
  knownBasis := .ownerReviewedInstant
  basis := .economicValue
  reasons := []

/-- A manifest whose cash and debt hide a claim of five thousand in the rounded sum. -/
def edgeManifest : ValuationManifest where
  valuationAt := 0
  issuerCurrency := "USD"
  periodEnd := 0
  filedCutoff := some 0
  securityId := "security"
  quoteIdentifierId := "quote"
  policy := ⟨0, 0, true, 365, 30, 365⟩
  price := ⟨"quote", "security", some "batch", some "observation", 0, 0, some (.ofInt 15), some "USD", true,
    some "unadjusted", some "close", "none"⟩
  shares := ⟨some (.ofInt 10), some (.ofInt 10), some .shares, some (.ofInt 1), some (.ofInt 10), some (.ofInt 10),
    "USD", 0, 0, 0, .ownerReviewedInstant, "none", true, true, true, true, true, true⟩
  claims := [⟨edgeClaim .cash ⟨false, 1, 100⟩, by decide +kernel⟩, ⟨edgeClaim .other (.ofInt 5000), by decide +kernel⟩,
    ⟨edgeClaim .debt ⟨false, 1, 100⟩, by decide +kernel⟩, ⟨edgeClaim .nonoperatingAssets (.ofInt 0), by decide +kernel⟩,
    ⟨edgeClaim .leases (.ofInt 0), by decide +kernel⟩, ⟨edgeClaim .preferred (.ofInt 0), by decide +kernel⟩,
    ⟨edgeClaim .nci (.ofInt 0), by decide +kernel⟩]
  bridgeCapturedBefore := 0
  sourceEligibilityReasons := []
  accepted := by decide +kernel

/-- The power of a decimal, rounded once. -/
def roundedPower (base : Decimal) (n : ℕ) : Except DecimalException Decimal :=
  context.finish (base.negative && n % 2 == 1) (base.coefficient ^ n) 1 (base.exponent * n)

/-- The bridge of the manifest at the edge; the claim of five thousand is lost in the sum. -/
def edgeLinked : BridgeResult := .eligible (.ofInt 150) (.ofInt 0) (.ofInt 150) (.ofInt 10)

/-- The midpoint that the scenario at the edge presents. -/
def edgeRepresentative : Decimal := ⟨false, 25 * 10 ^ 78, -80⟩

/-- The manifest at the edge is eligible. -/
theorem bridge_edge : bridge edgeManifest = .ok edgeLinked :=
  toOption_eq_some.mp (by decide +kernel)

/-- What the scenario at the edge fills in for a growth. -/
def edgeValues (growth : Decimal) : ForecastOf Decimal where
  revenueAnchor := .ofInt 100
  growth := List.replicate 5 growth
  margins := List.replicate 5 (.ofInt 1)
  taxes := List.replicate 5 (.ofInt 0)
  reinvestment := List.replicate 5 (.ofInt 0)
  wacc := .ofInt 1
  riskFree := ⟨false, 5, -2⟩
  terminalGrowth := .ofInt 0
  terminalMargin := .ofInt 1
  terminalTax := .ofInt 0
  terminalRoic := .ofInt 1

/-- The forecast of the scenario at the edge at its lower end. -/
def edgeStart : Forecast where
  toForecastOf := edgeValues ⟨true, 1, -100⟩
  accepted := by decide +kernel

/-- The forecast of the scenario at the edge at the growth that it presents. -/
def edgeSolved : Forecast where
  toForecastOf := edgeValues edgeRepresentative
  accepted := by decide +kernel

/-- The scenario at the edge resolves at both growths. -/
theorem resolved_edge : resolved edgeScenario edgeScenario.solve.lower = .ok edgeStart ∧
    resolved edgeScenario edgeRepresentative = .ok edgeSolved := by
  have hresolved : ∀ {growth : Decimal} {f : Forecast}, f.toForecastOf = edgeValues growth → resolved edgeScenario growth = .ok f := by
    intro growth f hf
    have hvalues : resolvedValues (rounded context) edgeScenario.toScenarioFields growth = .ok (edgeValues growth) := rfl
    simp only [resolved, hvalues, ← hf]
    exact modelValidate_isOk f.accepted
  exact ⟨hresolved rfl, hresolved rfl⟩

/-- The scenario at the edge converges on its whole domain. -/
theorem calculateScenario_edge :
    let r := (calculateScenario roundedPower edgeScenario edgeLinked).solve
    r.state = .converged ∧ r.representative = some edgeRepresentative ∧
      r.interval.map Interval.bounds = some ⟨⟨true, 1, -100⟩, ⟨false, 5, -1⟩⟩ := by
  obtain ⟨result, hresult, hconverged, hrepresentative, hinterval⟩ := Solver.run_converges ⟨edgeStart, edgeScenario.solve, .ofInt 150⟩ (-1)
    (.ofInt 1000) edgeRepresentative (by decide) (by decide +kernel) (by decide) (by decide +kernel) (by decide +kernel)
    (by decide +kernel) (by decide +kernel) (by decide +kernel)
  have hsolve : solve edgeStart edgeScenario.solve (.ofInt 150) = .ok result := by
    rw [solve, if_neg fun hmargin => absurd hmargin.1 (by decide)]
    exact hresult
  have hprice : (do
      let evaluated ← evaluate (forward roundedPower) edgeSolved.toForecastOf
      let equity ← context.add evaluated.operatingEv (.ofInt 0)
      context.div equity (.ofInt 10)).toOption.isSome = true := by
    decide +kernel
  obtain ⟨perShare, hperShare⟩ := Option.isSome_iff_exists.mp hprice
  obtain ⟨hsame, -⟩ : (calculateScenario roundedPower edgeScenario edgeLinked).solve = result ∧
      (calculateScenario roundedPower edgeScenario edgeLinked).conditionalPerShare = some perShare :=
    calculateScenario_of_parts resolved_edge.1 hsolve hrepresentative resolved_edge.2 (toOption_eq_some.mp hperShare)
  rw [hsame]
  exact ⟨hconverged, hrepresentative, hinterval⟩

/-- The tolerance of the scenario at the edge. -/
theorem tolerance_edge (inputs : Forecast) :
    Solver.tolerance ⟨inputs, edgeScenario.solve, .ofInt 150⟩ = .ok (.ofInt 1000) := by
  apply toOption_eq_some.mp
  change (do raising (context.add (.ofInt 1000) (← raising (context.mul (.ofInt 0)
    (← raising (context.abs (.ofInt 150))))))).toOption = some (Decimal.ofInt 1000)
  decide +kernel

/-- A converged scenario is wider than its width tolerance and prices its shares outside its tolerance. -/
theorem converged_misses_exact_bounds :
    bridge edgeManifest = .ok edgeLinked ∧
      ∃ r i x, (calculateScenario roundedPower edgeScenario edgeLinked).solve = r ∧ r.state = .converged ∧
        r.interval = some i ∧ r.representative = some x ∧
        edgeScenario.solve.widthTolerance.value < i.upper.value - i.lower.value ∧
        (∀ inputs, Solver.tolerance ⟨inputs, edgeScenario.solve, .ofInt 150⟩ = .ok (.ofInt 1000)) ∧
        1000 < |exactEquity edgeManifest edgeScenario x - 150| := by
  obtain ⟨hstate, hrepresentative, hinterval⟩ := calculateScenario_edge
  obtain ⟨i, hi, hbounds⟩ := Option.map_eq_some_iff.mp hinterval
  have hlower : i.lower = ⟨true, 1, -100⟩ := congrArg Bounds.lo hbounds
  have hupper : i.upper = ⟨false, 5, -1⟩ := congrArg Bounds.hi hbounds
  refine ⟨bridge_edge, _, i, edgeRepresentative, rfl, hstate, hi, hrepresentative, ?_, tolerance_edge, ?_⟩
  · rw [hlower, hupper]
    decide +kernel
  · decide +kernel

/-- The scenario at the edge prices its shares back within its tolerance and the loss of the bridge. -/
theorem reverse_then_forward_edge :
    |exactEquity edgeManifest edgeScenario edgeRepresentative - 150| ≤
      1000 + bridgeLoss edgeManifest (.ofInt 150) (.ofInt 150) := by
  obtain ⟨hstate, hrepresentative, _⟩ := calculateScenario_edge
  obtain ⟨inputs, x, tolerance, _, hx, _, htolerance, hequity, _⟩ := reverse_then_forward.2 roundedPower
    edgeManifest edgeScenario (.ofInt 150) (.ofInt 0) (.ofInt 150) (.ofInt 10)
    (calculateScenario roundedPower edgeScenario edgeLinked).solve bridge_edge rfl hstate
  have htolerance' := htolerance.symm.trans (tolerance_edge inputs)
  cases htolerance'
  have hx' : some x = some edgeRepresentative := hx.symm.trans hrepresentative
  cases hx'
  simpa using hequity

end EquityEval.Valuation
