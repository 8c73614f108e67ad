import EquityEval.Valuation.Bounds

/-!
# Dual bounds enclose values and slopes

The derivative bounds of a dual number enclose the difference quotients of the function it
stands for. Difference quotients exist across the kink of the tax base, so the generalized
derivative of `positive` needs no exception, and a sign of the derivative bounds proves
injectivity on the whole domain.
-/

namespace EquityEval.Valuation

open DecimalArithmetic IntervalCalculus Set

/-- Bounds of a value with bounds of its slopes. -/
structure Dual where
  value : Bounds
  derivative : Bounds
deriving DecidableEq, Repr

namespace Dual

/-- A constant of slope zero. -/
def constant (value : Decimal) : Dual := ⟨.point value, .point (.ofInt 0)⟩

/-- Sum of dual bounds. -/
def add (a b : Dual) : Except NumericError Dual := do
  pure ⟨← a.value.add b.value, ← a.derivative.add b.derivative⟩

/-- Difference of dual bounds. -/
def sub (a b : Dual) : Except NumericError Dual := do
  pure ⟨← a.value.sub b.value, ← a.derivative.sub b.derivative⟩

/-- Product of dual bounds. -/
def mul (a b : Dual) : Except NumericError Dual := do
  let value ← a.value.mul b.value
  let derivative ← (← a.derivative.mul b.value).add (← a.value.mul b.derivative)
  pure ⟨value, derivative⟩

/-- Quotient of dual bounds. -/
def div (a b : Dual) : Except NumericError Dual := do
  let value ← a.value.div b.value
  let numerator ← (← a.derivative.mul b.value).sub (← a.value.mul b.derivative)
  let derivative ← numerator.div (← b.value.power 2)
  pure ⟨value, derivative⟩

/-- Positive part; the slopes at the kink include both pieces. -/
def positive (a : Dual) : Dual :=
  if .ofInt 0 ≤ a.value.lo then a
  else if a.value.hi ≤ .ofInt 0 then constant (.ofInt 0)
  else
    ⟨⟨.ofInt 0, a.value.hi⟩,
      ⟨Decimal.minimum (.ofInt 0) a.derivative.lo, Decimal.maximum (.ofInt 0) a.derivative.hi⟩⟩

/-- Values of `g` on `s` and its slopes between points of `s` lie within the bounds. -/
structure Encloses (d : Dual) (s : Set ℝ) (g : ℝ → ℝ) : Prop where
  value : MapsTo g s d.value.set
  slopes : SlopesIn s g d.derivative.set

variable {a b r : Dual} {s : Set ℝ} {f g : ℝ → ℝ}

/-- An enclosure depends only on the values on the domain. -/
theorem Encloses.congr (h : a.Encloses s f) (heq : EqOn f g s) : a.Encloses s g where
  value := h.value.congr heq
  slopes := h.slopes.congr heq

/-- A constant encloses its constant function. -/
theorem constant_encloses (d : Decimal) : (constant d).Encloses s fun _ => (d.value : ℝ) where
  value := fun _ _ => Bounds.mem_point d
  slopes := slopesIn_const _ Bounds.zero_mem_point

/-- The seed of a domain encloses the identity on it. -/
theorem seed_encloses (domain : Bounds) :
    (Dual.mk domain (.point (.ofInt 1))).Encloses domain.set fun x => x where
  value := fun _ hx => hx
  slopes := slopesIn_id (by simpa using Bounds.mem_point (.ofInt 1))

/-- Sums are enclosed. -/
theorem add_encloses (h : a.add b = .ok r) (ha : a.Encloses s f) (hb : b.Encloses s g) :
    r.Encloses s fun x => f x + g x := by
  unfold add at h
  obtain ⟨value, hvalue, h⟩ := exists_of_bind_eq_ok h
  obtain ⟨derivative, hderivative, h⟩ := exists_of_bind_eq_ok h
  cases h
  exact
    { value := fun x hx => Bounds.add_mem hvalue (ha.value hx) (hb.value hx)
      slopes := ha.slopes.add hb.slopes fun _ hd _ he => Bounds.add_mem hderivative hd he }

/-- Differences are enclosed. -/
theorem sub_encloses (h : a.sub b = .ok r) (ha : a.Encloses s f) (hb : b.Encloses s g) :
    r.Encloses s fun x => f x - g x := by
  unfold sub at h
  obtain ⟨value, hvalue, h⟩ := exists_of_bind_eq_ok h
  obtain ⟨derivative, hderivative, h⟩ := exists_of_bind_eq_ok h
  cases h
  exact
    { value := fun x hx => Bounds.sub_mem hvalue (ha.value hx) (hb.value hx)
      slopes := ha.slopes.sub hb.slopes fun _ hd _ he => Bounds.sub_mem hderivative hd he }

/-- Products are enclosed. -/
theorem mul_encloses (h : a.mul b = .ok r) (ha : a.Encloses s f) (hb : b.Encloses s g) :
    r.Encloses s fun x => f x * g x := by
  unfold mul at h
  obtain ⟨value, hvalue, h⟩ := exists_of_bind_eq_ok h
  obtain ⟨left, hleft, h⟩ := exists_of_bind_eq_ok h
  obtain ⟨right, hright, h⟩ := exists_of_bind_eq_ok h
  obtain ⟨derivative, hderivative, h⟩ := exists_of_bind_eq_ok h
  cases h
  refine
    { value := fun x hx => Bounds.mul_mem hvalue (ha.value hx) (hb.value hx)
      slopes := ha.slopes.mul hb.slopes ha.value hb.value fun d hd w hw v hv e he => ?_ }
  exact Bounds.add_mem hderivative (Bounds.mul_mem hleft hd hw) (Bounds.mul_mem hright hv he)

/-- Quotients are enclosed. -/
theorem div_encloses (h : a.div b = .ok r) (ha : a.Encloses s f) (hb : b.Encloses s g) :
    r.Encloses s fun x => f x / g x := by
  unfold div at h
  obtain ⟨value, hvalue, h⟩ := exists_of_bind_eq_ok h
  obtain ⟨left, hleft, h⟩ := exists_of_bind_eq_ok h
  obtain ⟨right, hright, h⟩ := exists_of_bind_eq_ok h
  obtain ⟨numerator, hnumerator, h⟩ := exists_of_bind_eq_ok h
  obtain ⟨square, hsquare, h⟩ := exists_of_bind_eq_ok h
  obtain ⟨derivative, hderivative, h⟩ := exists_of_bind_eq_ok h
  cases h
  have hne : ∀ w ∈ b.value.set, w ≠ 0 := by
    intro w hw
    rcases Bounds.div_side hvalue with hpos | hneg
    · exact (hpos.trans_le hw.1).ne'
    · exact (hw.2.trans_lt hneg).ne
  refine
    { value := fun x hx => Bounds.div_mem hvalue (ha.value hx) (hb.value hx)
      slopes := ha.slopes.div hb.slopes ha.value hb.value hne fun d hd w hw v hv e he w' hw' => ?_ }
  exact Bounds.div_mem hderivative
    (Bounds.sub_mem hnumerator (Bounds.mul_mem hleft hd hw) (Bounds.mul_mem hright hv he))
    (Bounds.mul_mem_power_two hsquare hw hw')

/-- Positive parts are enclosed, also across their kink. -/
theorem positive_encloses (ha : a.Encloses s f) : a.positive.Encloses s fun x => max (f x) 0 := by
  unfold positive
  split
  · -- the whole enclosure is nonnegative, so the positive part is the function itself
    rename_i hlo
    rw [Decimal.le_iff_value, Decimal.value_ofInt] at hlo
    exact ha.congr fun x hx => (max_eq_left (le_trans (by exact_mod_cast hlo) (ha.value hx).1)).symm
  · split
    · rename_i hhi
      rw [Decimal.le_iff_value, Decimal.value_ofInt] at hhi
      refine (constant_encloses (.ofInt 0)).congr fun x hx => ?_
      dsimp only
      rw [max_eq_right ((ha.value hx).2.trans (by exact_mod_cast hhi)), value_zero]
    · rename_i _ hhi
      rw [Decimal.le_iff_value, Decimal.value_ofInt, not_le] at hhi
      refine
        { value := fun x hx => ⟨?_, ?_⟩
          slopes := ha.slopes.positivePart fun d hd t ht => ⟨?_, ?_⟩ }
      · simp
      · exact max_le (ha.value hx).2 (by exact_mod_cast hhi.le)
      · simp only [Decimal.value_minimum, Decimal.value_ofInt]
        push_cast
        rcases le_total 0 d with hd0 | hd0
        · exact (min_le_left _ _).trans (mul_nonneg ht.1 hd0)
        · calc min 0 (a.derivative.lo.value : ℝ) ≤ d := (min_le_right _ _).trans hd.1
            _ ≤ t * d := le_mul_of_le_one_left hd0 ht.2
      · simp only [Decimal.value_maximum, Decimal.value_ofInt]
        push_cast
        rcases le_total 0 d with hd0 | hd0
        · calc t * d ≤ d := mul_le_of_le_one_left hd0 ht.2
            _ ≤ max 0 (a.derivative.hi.value : ℝ) := hd.2.trans (le_max_right _ _)
        · exact (mul_nonpos_of_nonneg_of_nonpos ht.1 hd0).trans (le_max_left _ _)

/-- Dual bounds as a number system. -/
def system : NumberSystem (Except NumericError) Dual where
  const := constant
  add := add
  sub := sub
  mul := mul
  div := div
  positive a := pure a.positive

/-- Dual arithmetic encloses exact function arithmetic on every domain. -/
theorem system_simulates (s : Set ℝ) :
    Simulates (MonadRelation.exceptId NumericError) (fun (d : Dual) g => d.Encloses s g) system (pointwise ℝ) where
  const := constant_encloses
  add ha hb := fun _ h => add_encloses h ha hb
  sub ha hb := fun _ h => sub_encloses h ha hb
  mul ha hb := fun _ h => mul_encloses h ha hb
  div ha hb := fun _ h => div_encloses h ha hb
  positive ha := by
    rintro _ ⟨⟩
    exact positive_encloses ha

end Dual

/-- The solver's residual: dual bounds with the unknown ranging over a domain. -/
def dualResidual (inputs : ForecastOf Decimal) (spec : SolveSpecFields) (domain : Bounds) (target : Decimal) :
    Except NumericError Dual :=
  residual Dual.system inputs spec ⟨domain, .point (.ofInt 1)⟩ target

/-- The exact unrounded residual as a function of the real unknown. -/
noncomputable def exactResidual (inputs : ForecastOf Decimal) (spec : SolveSpecFields) (target : Decimal) (x : ℝ) :
    ℝ :=
  (residual (exact ℝ) inputs spec x target).run

/-- The solver's residual encloses the exact residual and its slopes on the domain. -/
theorem dualResidual_encloses {inputs : ForecastOf Decimal} {spec : SolveSpecFields} {domain : Bounds}
    {target : Decimal} {d : Dual} (h : dualResidual inputs spec domain target = .ok d) :
    d.Encloses domain.set (exactResidual inputs spec target) := by
  have henclosed := residual_simulates (Dual.system_simulates domain.set) inputs spec target
    (Dual.seed_encloses domain) d h
  have hpoint : exactResidual inputs spec target =
      (residual (pointwise ℝ) inputs spec (fun x => x) target).run := by
    funext x
    exact (residual_simulates (M := MonadRelation.idId) (pointwise_simulates ℝ x) inputs spec target
      (x := fun x => x) (y := x) rfl).symm
  rw [hpoint]
  exact henclosed

/-- The ends of the residual's bounds have at most eighty digits. -/
theorem dualResidual_representable {inputs : ForecastOf Decimal} {spec : SolveSpecFields} {domain : Bounds}
    {target : Decimal} {d : Dual} (h : dualResidual inputs spec domain target = .ok d) :
    context.Representable d.value.lo.value ∧ context.Representable d.value.hi.value := by
  obtain ⟨value, h⟩ := residual_eq_ok h
  obtain ⟨difference, hdifference, h⟩ := exists_of_bind_eq_ok h
  obtain ⟨_, _, h⟩ := exists_of_bind_eq_ok h
  cases h
  obtain ⟨lo, hlo, hdifference⟩ := exists_of_bind_eq_ok hdifference
  obtain ⟨hi, hhi, hdifference⟩ := exists_of_bind_eq_ok hdifference
  cases hdifference
  exact ⟨(Context.add_rounds (by decide) (raising_eq_ok.mp hlo)).representable,
    (Context.add_rounds (by decide) (raising_eq_ok.mp hhi)).representable⟩

/-- A growth scenario over five years. -/
def sampleScenario : Scenario where
  name := "base"
  revenueAnchor := .ofInt 100
  growth := none
  margins := some (List.replicate 5 ⟨false, 2, -1⟩)
  taxes := List.replicate 5 ⟨false, 25, -2⟩
  reinvestment := some (List.replicate 5 ⟨false, 5, -2⟩)
  wacc := ⟨false, 1, -1⟩
  riskFree := ⟨false, 5, -2⟩
  terminalGrowth := ⟨false, 2, -2⟩
  terminalMargin := some ⟨false, 2, -1⟩
  terminalTax := ⟨false, 25, -2⟩
  terminalRoic := ⟨false, 12, -2⟩
  solve :=
    { solveVariable := .revenueCagr
      lower := ⟨true, 5, -1⟩
      upper := ⟨false, 5, -1⟩
      absoluteTolerance := .ofInt 1000
      relativeTolerance := .ofInt 0
      widthTolerance := .ofInt 1
      maxIterations := 8
      maxSubdivisions := 8
      maxEvaluations := 8
      marginWeights := []
      anchorMargin := none
      accepted := by decide +kernel }
  accepted := by decide +kernel

/-- Rational arithmetic embeds into real arithmetic. -/
theorem exact_cast_simulates :
    Simulates MonadRelation.idId (fun (q : ℚ) (x : ℝ) => (q : ℝ) = x) (exact ℚ) (exact ℝ) where
  const d := by simp [exact]
  add := by rintro a b _ _ rfl rfl; exact Rat.cast_add a b
  sub := by rintro a b _ _ rfl rfl; exact Rat.cast_sub a b
  mul := by rintro a b _ _ rfl rfl; exact Rat.cast_mul a b
  div := by rintro a b _ _ rfl rfl; exact Rat.cast_div a b
  positive := by rintro a _ rfl; exact (Rat.cast_max a 0).trans (congrArg (max _) Rat.cast_zero)

/-- At a rational unknown the exact residual is rational. -/
theorem exactResidual_cast (inputs : ForecastOf Decimal) (spec : SolveSpecFields) (target : Decimal) (x : ℚ) :
    exactResidual inputs spec target x = ((residual (exact ℚ) inputs spec x target).run : ℚ) :=
  (residual_simulates (M := MonadRelation.idId) exact_cast_simulates inputs spec target (x := x) (y := x) rfl).symm

/-- A forecast that differs from a filled one only in the solved slots is filled too. -/
theorem ScenarioFields.Fills.of_sameOutside {s : ScenarioFields} {f g : ForecastOf Decimal} (h : s.Fills f)
    (hsame : f.SameOutside s.solve.solveVariable g) : s.Fills g where
  revenueAnchor := hsame.revenueAnchor ▸ h.revenueAnchor
  years := hsame.years ▸ h.years
  growth hv := hsame.growth hv ▸ h.growth hv
  margins hv := hsame.margins hv ▸ h.margins hv
  marginYears hv := hsame.margins hv ▸ h.marginYears hv
  taxes := hsame.taxes ▸ h.taxes
  reinvestment hv := hsame.reinvestment hv ▸ h.reinvestment hv
  reinvestmentYears hv := hsame.reinvestment hv ▸ h.reinvestmentYears hv
  wacc := hsame.wacc ▸ h.wacc
  terminalGrowth := hsame.terminalGrowth ▸ h.terminalGrowth
  terminalMargin hv := hsame.terminalMargin hv ▸ h.terminalMargin hv
  terminalTax := hsame.terminalTax ▸ h.terminalTax
  terminalRoic := hsame.terminalRoic ▸ h.terminalRoic

/-- The exact value of a scenario's forecast at a parameter. -/
def exactOperatingEv (scenario : ScenarioFields) (x : ℚ) : ℚ :=
  (evaluate (exactForward ℚ) (resolvedValues (exact ℚ) scenario x).run).run.operatingEv

/-- The residual is the forward model minus the target, whatever the solved slots hold, and every
evaluation of the residual on bounds that contain the parameter encloses that number. -/
theorem residual_is_forward_model (scenario : Scenario) (inputs : Forecast)
    (hlower : resolved scenario scenario.solve.lower = .ok inputs) (placeholder : ForecastOf Decimal)
    (hsame : inputs.toForecastOf.SameOutside scenario.solve.solveVariable placeholder)
    (target : Decimal) (x : ℚ) :
    (residual (exact ℚ) placeholder scenario.solve.toSolveSpecFields x target).run =
        exactOperatingEv scenario.toScenarioFields x - target.value ∧
      ∀ (domain : Bounds) (d : Dual), (x : ℝ) ∈ domain.set →
        dualResidual placeholder scenario.solve.toSolveSpecFields domain target = .ok d →
        ((exactOperatingEv scenario.toScenarioFields x - target.value : ℚ) : ℝ) ∈ d.value.set := by
  have hfills := (fills_of_resolved hlower).of_sameOutside hsame
  have hexact := residual_eq_operatingEv hfills target x
  rw [Rat.cast_id] at hexact
  refine ⟨hexact, fun domain d hx hd => ?_⟩
  have hmem := (dualResidual_encloses hd).value hx
  rw [exactResidual_cast, hexact] at hmem
  exact hmem

/-- The sample scenario resolves at its lower bound, and its residual is the forward model there. -/
theorem residual_is_forward_model_sample : ∃ inputs : Forecast,
    resolved sampleScenario sampleScenario.solve.lower = .ok inputs ∧
      (residual (exact ℚ) inputs.toForecastOf sampleScenario.solve.toSolveSpecFields (1 / 10) (.ofInt 150)).run =
        exactOperatingEv sampleScenario.toScenarioFields (1 / 10) - 150 := by
  obtain ⟨inputs, hinputs⟩ := Option.isSome_iff_exists.mp
    (show (resolved sampleScenario sampleScenario.solve.lower).toOption.isSome by decide +kernel)
  rw [toOption_eq_some] at hinputs
  refine ⟨inputs, hinputs, ?_⟩
  simpa using (residual_is_forward_model sampleScenario inputs hinputs inputs.toForecastOf (.refl _ _)
    (.ofInt 150) (1 / 10)).1

end EquityEval.Valuation
