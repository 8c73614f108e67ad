import EquityEval.Valuation.Forward

/-!
# Scenarios

A scenario leaves exactly the solved slots open; `resolved` fills them with a parameter and
validates the forecast. The values that fill the slots are computed over a number system, so
the same text gives the rounded forecast of the source and the exact one it stands for.
-/

namespace EquityEval.Valuation

open DecimalArithmetic

/-- The slots of a scenario; a null slot is one that the solve fills. -/
structure ScenarioFields where
  name : String
  revenueAnchor : Decimal
  growth : Option (List Decimal)
  margins : Option (List Decimal)
  taxes : List Decimal
  reinvestment : Option (List Decimal)
  wacc : Decimal
  riskFree : Decimal
  terminalGrowth : Decimal
  terminalMargin : Option Decimal
  terminalTax : Decimal
  terminalRoic : Decimal
  solve : SolveSpec
deriving DecidableEq, Repr

namespace ScenarioFields

/-- Every bounded decimal of a scenario outside its solve specification. -/
def inputs (s : ScenarioFields) : List Decimal :=
  [s.revenueAnchor] ++ s.growth.getD [] ++ s.margins.getD [] ++ s.taxes ++ s.reinvestment.getD [] ++
    [s.wacc, s.riskFree, s.terminalGrowth] ++ s.terminalMargin.toList ++ [s.terminalTax, s.terminalRoic]

/-- The field checks and the slot check of a scenario. -/
def slots (s : ScenarioFields) : Except String Unit := do
  let v := s.solve.solveVariable
  refuseIf (s.name = "") "name"
  boundedDecimals s.inputs
  refuseIf (s.growth.isNone ≠ decide (v = .revenueCagr) ∨
      s.reinvestment.isNone ≠ decide (v = .reinvestmentToRevenue) ∨
      s.margins.isNone ≠ decide (v = .terminalOperatingMargin) ∨
      s.terminalMargin.isNone ≠ decide (v = .terminalOperatingMargin))
    "Only the declared solved parameter may be unspecified"
  let n := s.taxes.length
  refuseIf (¬ (5 ≤ n ∧ n ≤ 10)) "Public model requires 5–10 forecast years"
  refuseIf (v = .terminalOperatingMargin ∧ s.solve.marginWeights.length ≠ n) "Full margin fade required"

end ScenarioFields

/-- A scenario that passed its checks. -/
structure Scenario extends ScenarioFields where
  accepted : toScenarioFields.slots = .ok ()
deriving DecidableEq, Repr

/-- An accepted margin scenario fades over every year. -/
theorem Scenario.weights_length (s : Scenario) (h : s.solve.solveVariable = .terminalOperatingMargin) :
    s.solve.marginWeights.length = s.taxes.length := by
  have haccepted := s.accepted
  simp only [ScenarioFields.slots, boundedDecimals, refuseIf_bind_eq_ok, refuseIf_eq_ok] at haccepted
  by_contra hne
  exact haccepted.2.2.2.2 ⟨h, hne⟩

variable {m : Type → Type} [Monad m] {α : Type}

/-- The slots of a scenario's forecast with the parameter in the solved ones.

A null slot that the solve does not fill becomes an empty vector, which the domain check refuses. -/
def resolvedValues (N : NumberSystem m α) (scenario : ScenarioFields) (parameter : α) :
    m (ForecastOf α) := do
  let c := N.const
  let v := scenario.solve.solveVariable
  let n := scenario.taxes.length
  let anchor := c (scenario.solve.anchorMargin.getD (.ofInt 0))
  let margins ←
    if v = .terminalOperatingMargin then
      scenario.solve.marginWeights.mapM fun w => do
        N.add (← N.mul (← N.sub (c (.ofInt 1)) (c w)) anchor) (← N.mul (c w) parameter)
    else pure ((scenario.margins.getD []).map c)
  pure
    { revenueAnchor := c scenario.revenueAnchor
      growth := if v = .revenueCagr then List.replicate n parameter else (scenario.growth.getD []).map c
      margins
      taxes := scenario.taxes.map c
      reinvestment :=
        if v = .reinvestmentToRevenue then List.replicate n parameter
        else (scenario.reinvestment.getD []).map c
      wacc := c scenario.wacc
      riskFree := c scenario.riskFree
      terminalGrowth := c scenario.terminalGrowth
      terminalMargin :=
        if v = .terminalOperatingMargin then parameter else c (scenario.terminalMargin.getD (.ofInt 0))
      terminalTax := c scenario.terminalTax
      terminalRoic := c scenario.terminalRoic }

/-- Rounded decimal arithmetic as a number system. -/
def rounded (ctx : Context) : NumberSystem (Except DecimalException) Decimal where
  const := id
  add := ctx.add
  sub := ctx.sub
  mul := ctx.mul
  div := ctx.div
  positive d := pure (Decimal.maximum d (.ofInt 0))

/-- Validate the slots of a forecast. -/
def Forecast.modelValidate (values : ForecastOf Decimal) : Except Raised Forecast :=
  match h : values.domains with
  | .ok () => .ok ⟨values, h⟩
  | .error message => .error (.valueError message)

/-- Slots that pass the check form a validated forecast. -/
theorem modelValidate_isOk {f : ForecastOf Decimal} (h : f.domains = .ok ()) : Forecast.modelValidate f = .ok ⟨f, h⟩ := by
  unfold Forecast.modelValidate
  split
  · rfl
  · rename_i message heq
    rw [h] at heq
    cases heq

/-- The validated forecast of a scenario at a parameter. -/
def resolved (scenario : Scenario) (parameter : Decimal) : Except Raised Forecast :=
  match resolvedValues (rounded context) scenario.toScenarioFields parameter with
  | .ok values => Forecast.modelValidate values
  | .error e => .error (.numeric (.decimal e))

/-- A resolved forecast holds the resolved values. -/
theorem resolved_values {scenario : Scenario} {parameter : Decimal} {inputs : Forecast}
    (h : resolved scenario parameter = .ok inputs) :
    resolvedValues (rounded context) scenario.toScenarioFields parameter = .ok inputs.toForecastOf := by
  unfold resolved at h
  split at h
  · rename_i values hvalues
    unfold Forecast.modelValidate at h
    split at h
    · cases h
      exact hvalues
    · cases h
  · cases h

/-- Two forecasts that differ only in the slots that a solve of the variable fills. -/
structure ForecastOf.SameOutside (v : Variable) (f g : ForecastOf α) : Prop where
  revenueAnchor : f.revenueAnchor = g.revenueAnchor
  years : f.growth.length = g.growth.length
  growth : v ≠ .revenueCagr → f.growth = g.growth
  margins : v ≠ .terminalOperatingMargin → f.margins = g.margins
  taxes : f.taxes = g.taxes
  reinvestment : v ≠ .reinvestmentToRevenue → f.reinvestment = g.reinvestment
  wacc : f.wacc = g.wacc
  terminalGrowth : f.terminalGrowth = g.terminalGrowth
  terminalMargin : v ≠ .terminalOperatingMargin → f.terminalMargin = g.terminalMargin
  terminalTax : f.terminalTax = g.terminalTax
  terminalRoic : f.terminalRoic = g.terminalRoic

/-- A forecast agrees with itself. -/
theorem ForecastOf.SameOutside.refl (v : Variable) (f : ForecastOf α) : f.SameOutside v f := by
  constructor <;> simp

/-- Exact arithmetic of the forward model. -/
def exactForward (K : Type) [Field K] [LinearOrder K] : ForwardSystem Id K where
  toNumberSystem := exact K
  power a n := pure (a ^ n)
  exceeds a d := decide (d.value < a)

end EquityEval.Valuation
