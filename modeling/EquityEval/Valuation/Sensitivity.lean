import EquityEval.Valuation.RoundTrip

/-!
# Sensitivity cells

A grid varies two parameters of a reference scenario. A cell resolves the forecast of the scenario, patches both axes into its
slots and validates it again; then it either solves for the same unknown as the scenario, or reprices at a fixed parameter.
-/

namespace EquityEval.Valuation

open DecimalArithmetic

/-- The parameters that an axis may vary. -/
inductive AxisParameter where
  | wacc
  | terminalGrowth
  | revenueCagr
  | terminalOperatingMargin
  | reinvestmentToRevenue
deriving DecidableEq, Repr

/-- The parameter that a solve leaves open. -/
def Variable.parameter : Variable → AxisParameter
  | revenueCagr => .revenueCagr
  | terminalOperatingMargin => .terminalOperatingMargin
  | reinvestmentToRevenue => .reinvestmentToRevenue

/-- What the cells of a grid compute. -/
inductive SensitivityOutput where
  | reverseImpliedParameter
  | conditionalReprice
deriving DecidableEq, Repr

/-- The slots of a grid. -/
structure SensitivityGridFields where
  name : String
  referenceScenario : String
  output : SensitivityOutput
  xParameter : AxisParameter
  xValues : List Decimal
  yParameter : AxisParameter
  yValues : List Decimal
  conditionalParameter : Option Decimal
deriving DecidableEq, Repr

/-- The field checks and the roster check of a grid. -/
def SensitivityGridFields.roster (g : SensitivityGridFields) : Except String Unit := do
  refuseIf (¬ (1 ≤ g.name.length ∧ g.name.length ≤ 250)) "name"
  refuseIf (¬ (1 ≤ g.referenceScenario.length ∧ g.referenceScenario.length ≤ 250)) "reference_scenario"
  boundedDecimals (g.xValues ++ g.yValues ++ g.conditionalParameter.toList)
  refuseIf (g.xValues = [] ∨ g.yValues = [] ∨ g.xParameter = g.yParameter ∨
      100 < g.xValues.length * g.yValues.length ∨ ¬ g.xValues.Pairwise (fun a b => ¬ a.NumEq b) ∨
      ¬ g.yValues.Pairwise (fun a b => ¬ a.NumEq b))
    "Explicit distinct axes; maximum 100 cells per grid"
  refuseIf (g.conditionalParameter.isNone ≠ decide (g.output = .reverseImpliedParameter))
    "Only repricing fixes the original solved parameter"

/-- A grid that passed its checks. -/
structure SensitivityGrid extends SensitivityGridFields where
  accepted : toSensitivityGridFields.roster = .ok ()
deriving DecidableEq, Repr

/-- The scenarios and the grids of the assumptions. -/
structure AssumptionFields where
  scenarios : List Scenario
  sensitivities : List SensitivityGrid
deriving DecidableEq, Repr

/-- The part of the completeness check that is about scenarios and grids. -/
def AssumptionFields.completeness (a : AssumptionFields) : Except String Unit := do
  refuseIf (¬ (1 ≤ a.scenarios.length ∧ a.scenarios.length ≤ 12)) "scenarios"
  refuseIf (4 < a.sensitivities.length) "sensitivities"
  refuseIf (¬ (a.scenarios.map (·.name)).Nodup ∨
      ¬ ∀ s ∈ a.scenarios, ∀ t ∈ a.scenarios, s.solve.solveVariable = t.solve.solveVariable)
    "Unique scenario names and one common solved variable required"
  refuseIf (∃ s ∈ a.scenarios, ∃ t ∈ a.scenarios, s.taxes.length ≠ t.taxes.length)
    "Explicit annual anniversary forecast dates required"
  refuseIf (∃ g ∈ a.sensitivities, g.referenceScenario ∉ a.scenarios.map (·.name) ∨
      g.output = .reverseImpliedParameter ∧
        ∃ s ∈ a.scenarios.head?, s.solve.solveVariable.parameter = g.xParameter ∨ s.solve.solveVariable.parameter = g.yParameter)
    "Unknown reference or solved parameter used as reverse axis"
  refuseIf (¬ (a.sensitivities.map (·.name)).Nodup) "Duplicate grid name"

/-- Assumptions that passed their checks. -/
structure Assumptions extends AssumptionFields where
  accepted : toAssumptionFields.completeness = .ok ()
deriving DecidableEq, Repr

/-- The margins that fade from the anchor to the terminal margin. -/
def fadedMargins {m : Type → Type} [Monad m] {α : Type} (N : NumberSystem m α) (spec : SolveSpecFields) (terminal : α) :
    m (List α) :=
  spec.marginWeights.mapM fun w => do
    N.add (← N.mul (← N.sub (N.const (.ofInt 1)) (N.const w)) (N.const (spec.anchorMargin.getD (.ofInt 0))))
      (← N.mul (N.const w) terminal)

/-- `_changed`: patch a parameter into the slots of a forecast. -/
def changed (values : ForecastOf Decimal) (parameter : AxisParameter) (value : Decimal) (scenario : ScenarioFields) :
    Except DecimalException (ForecastOf Decimal) :=
  let years := scenario.taxes.length
  match parameter with
  | .revenueCagr => .ok { values with growth := List.replicate years value }
  | .reinvestmentToRevenue => .ok { values with reinvestment := List.replicate years value }
  | .terminalOperatingMargin =>
    if scenario.solve.solveVariable = .terminalOperatingMargin then do
      let margins ← fadedMargins (rounded context) scenario.solve.toSolveSpecFields value
      .ok { values with terminalMargin := value, margins }
    else .ok { values with terminalMargin := value }
  | .wacc => .ok { values with wacc := value }
  | .terminalGrowth => .ok { values with terminalGrowth := value }

/-- The outcome of a cell. -/
structure SensitivityCell where
  x : Decimal
  y : Decimal
  value : Option Decimal
  solve : Option SolveResult
  evaluation : Option (Evaluation Decimal)
  commonEquity : Option Decimal
  reasons : List String
deriving DecidableEq, Repr

/-- Rename the errors of decimal operations. -/
def raisingDecimal {α : Type} (x : Except DecimalException α) : Except Raised α := x.mapError fun e => .numeric (.decimal e)

/-- The patched slots of a cell, before they are validated. -/
def patched (scenario : Scenario) (grid : SensitivityGridFields) (x y : Decimal) : Except Raised (ForecastOf Decimal) := do
  let values ← resolved scenario (grid.conditionalParameter.getD scenario.solve.lower)
  let values ← raisingDecimal (changed values.toForecastOf grid.xParameter x scenario.toScenarioFields)
  raisingDecimal (changed values grid.yParameter y scenario.toScenarioFields)

/-- The patched slots of a cell with the forecast that they validate to. -/
def cellForecast (scenario : Scenario) (grid : SensitivityGridFields) (x y : Decimal) :
    Except Raised (ForecastOf Decimal × Forecast) := do
  let values ← patched scenario grid x y
  let forecast ← Forecast.modelValidate values
  .ok (values, forecast)

/-- The reasons of a forecast that was repriced. -/
def repricedReasons (evaluated : Evaluation Decimal) (equity : Decimal) : List String :=
  evaluated.reasons ++ reasonIf (equity ≤ .ofInt 0) "nonpositive_common_equity"

section

variable (power : Decimal → ℕ → Except DecimalException Decimal)

/-- Evaluate a forecast under the source's arithmetic. -/
def evaluateRounded (values : ForecastOf Decimal) : Except Raised (Evaluation Decimal) :=
  raisingDecimal (evaluate (forward power) values)

/-- The cell of a scenario that its grid refers to.

A later exception keeps what was computed before it, under the reason of an invalid cell. -/
def cellOf (scenario : Scenario) (linked : BridgeResult) (grid : SensitivityGridFields) (x y : Decimal) : SensitivityCell :=
  let cell : SensitivityCell := ⟨x, y, none, none, none, none, ["invalid_sensitivity_cell"]⟩
  match linked with
  | .ineligible reasons => { cell with reasons }
  | .eligible _ adjustment target shares =>
    match cellForecast scenario grid x y with
    | .error _ => cell
    | .ok (values, forecast) =>
      match grid.output with
      | .reverseImpliedParameter =>
        match solve forecast scenario.solve target with
        | .error _ => cell
        | .ok result =>
          match result.representative with
          | none => { cell with solve := some result, reasons := result.reasons }
          | some value =>
            let cell := { cell with solve := some result, value := some value }
            match (do
              let values ← raisingDecimal (changed values scenario.solve.solveVariable.parameter value scenario.toScenarioFields)
              let forecast ← Forecast.modelValidate values
              evaluateRounded power forecast.toForecastOf) with
            | .error _ => cell
            | .ok evaluated =>
              match context.add evaluated.operatingEv adjustment with
              | .error _ => { cell with evaluation := some evaluated }
              | .ok equity =>
                { cell with
                  evaluation := some evaluated
                  commonEquity := some equity
                  reasons := result.reasons ++ repricedReasons evaluated equity }
      | .conditionalReprice =>
        match evaluateRounded power forecast.toForecastOf with
        | .error _ => cell
        | .ok evaluated =>
          let cell := { cell with evaluation := some evaluated }
          match context.add evaluated.operatingEv adjustment with
          | .error _ => cell
          | .ok equity =>
            let cell := { cell with commonEquity := some equity }
            match context.div equity shares with
            | .error _ => cell
            | .ok value => { cell with value := some value, reasons := repricedReasons evaluated equity }

/-- The cell of a grid; nothing where its reference scenario is missing. -/
def calculateSensitivityCell (assumptions : AssumptionFields) (linked : BridgeResult) (grid : SensitivityGridFields)
    (x y : Decimal) : Option SensitivityCell :=
  (assumptions.scenarios.find? fun s => s.name = grid.referenceScenario).map fun scenario => cellOf power scenario linked grid x y

end

end EquityEval.Valuation
