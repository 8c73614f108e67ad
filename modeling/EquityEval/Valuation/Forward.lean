import EquityEval.Valuation.Types
import Mathlib.Data.List.Forall2

/-!
# The forward model and the solver's residual

`evaluate` values a resolved forecast year by year. `residual` recomputes the same cash flows
with the unknown in the solved slot and subtracts the target. Both are written over a number
system: the source runs the first one on rounded decimals and the second one on dual bounds,
and the meaning of a certified root is the second one over exact numbers.
-/

namespace EquityEval.Valuation

open DecimalArithmetic

variable {m : Type → Type} [Monad m] {α : Type}

/-- The further operations of the forward model. -/
structure ForwardSystem (m : Type → Type) (α : Type) extends NumberSystem m α where
  power : α → ℕ → m α
  exceeds : α → Decimal → Bool

/-- The inputs of one forecast year. -/
structure Year (α : Type) where
  growth : α
  margin : α
  tax : α
  k : α

/-- The forecast years; the domain check makes the vectors equally long. -/
def ForecastOf.years (f : ForecastOf α) : List (Year α) :=
  ((f.growth.zip f.margins).zip (f.taxes.zip f.reinvestment)).map fun y =>
    ⟨y.1.1, y.1.2, y.2.1, y.2.2⟩

/-- The outputs of one forecast year. -/
structure ForecastRow (α : Type) where
  year : ℕ
  revenue : α
  ebit : α
  cashTax : α
  nopat : α
  reinvestment : α
  fcff : α
  pv : α
deriving DecidableEq, Repr

/-- The outputs of the forward model. -/
structure Evaluation (α : Type) where
  rows : List (ForecastRow α)
  terminalRevenue : α
  terminalNopat : α
  terminalReinvestment : α
  terminalFcff : α
  terminalValue : α
  pvTerminal : α
  pvExplicit : α
  operatingEv : α
  terminalContribution : Option α
  terminalDominant : Option Bool
  reasons : List String
deriving DecidableEq, Repr

/-- The cash flows of one year from the revenue of the year before. -/
def forecastRow (N : ForwardSystem m α) (wacc : α) (year : ℕ) (revenue : α) (y : Year α) :
    m (ForecastRow α) := do
  let one := N.const (.ofInt 1)
  let revenue ← N.mul revenue (← N.add one y.growth)
  let ebit ← N.mul revenue y.margin
  let cashTax ← N.mul (← N.positive ebit) y.tax
  let nopat ← N.sub ebit cashTax
  let reinvestment ← N.mul revenue y.k
  let fcff ← N.sub nopat reinvestment
  let pv ← N.div fcff (← N.power (← N.add one wacc) year)
  pure { year, revenue, ebit, cashTax, nopat, reinvestment, fcff, pv }

/-- The rows of all years with the revenue of the last one. -/
def forecastRows (N : ForwardSystem m α) (wacc : α) :
    ℕ → α → List (Year α) → m (α × List (ForecastRow α))
  | _, revenue, [] => pure (revenue, [])
  | year, revenue, y :: rest => do
    let row ← forecastRow N wacc year revenue y
    let (last, rows) ← forecastRows N wacc (year + 1) row.revenue rest
    pure (last, row :: rows)

/-- The forward model. -/
def evaluate (N : ForwardSystem m α) (inputs : ForecastOf α) : m (Evaluation α) := do
  let one := N.const (.ofInt 1)
  let (revenue, rows) ← forecastRows N inputs.wacc 1 inputs.revenueAnchor inputs.years
  let tr ← N.mul revenue (← N.add one inputs.terminalGrowth)
  let tn ← N.mul (← N.mul tr inputs.terminalMargin) (← N.sub one inputs.terminalTax)
  let ti ← N.div (← N.mul tn inputs.terminalGrowth) inputs.terminalRoic
  let tf ← N.sub tn ti
  let tv ← N.div tf (← N.sub inputs.wacc inputs.terminalGrowth)
  let pv ← N.div tv (← N.power (← N.add one inputs.wacc) rows.length)
  let explicit ← (rows.map (·.pv)).foldlM N.add (N.const (.ofInt 0))
  let ev ← N.add explicit pv
  let ratio ← if N.exceeds ev (.ofInt 0) then some <$> N.div pv ev else pure none
  pure
    { rows
      terminalRevenue := tr
      terminalNopat := tn
      terminalReinvestment := ti
      terminalFcff := tf
      terminalValue := tv
      pvTerminal := pv
      pvExplicit := explicit
      operatingEv := ev
      terminalContribution := ratio
      terminalDominant := ratio.map fun r => N.exceeds r ⟨false, 75, -2⟩
      reasons := if ratio = none then ["terminal_ratio_not_meaningful"] else [] }

/-- The accumulators of the residual's loop. -/
structure Running (α : Type) where
  revenue : α
  total : α
  discount : α

/-- Element of a vector that the checks make long enough. -/
def entry (v : List Decimal) (i : ℕ) : Decimal := v.getD i (.ofInt 0)

/-- The margin of a year: faded from the anchor to the unknown in the margin solve. -/
def residualMargin (N : NumberSystem m α) (inputs : ForecastOf Decimal) (spec : SolveSpecFields) (x : α)
    (i : ℕ) : m α :=
  if spec.solveVariable = .terminalOperatingMargin then do
    -- the specification check leaves no margin solve without an anchor
    let anchor := N.const (spec.anchorMargin.getD (.ofInt 0))
    let weight := N.const (entry spec.marginWeights i)
    N.add (← N.mul (← N.sub (N.const (.ofInt 1)) weight) anchor) (← N.mul weight x)
  else pure (N.const (entry inputs.margins i))

/-- One year of the residual's loop. -/
def residualYear (N : NumberSystem m α) (inputs : ForecastOf Decimal) (spec : SolveSpecFields) (x : α)
    (s : Running α) (i : ℕ) : m (Running α) := do
  let one := N.const (.ofInt 1)
  let g := if spec.solveVariable = .revenueCagr then x else N.const (entry inputs.growth i)
  let k := if spec.solveVariable = .reinvestmentToRevenue then x else N.const (entry inputs.reinvestment i)
  let margin ← residualMargin N inputs spec x i
  let revenue ← N.mul s.revenue (← N.add one g)
  let ebit ← N.mul revenue margin
  let nopat ← N.sub ebit (← N.mul (← N.positive ebit) (N.const (entry inputs.taxes i)))
  let discount ← N.mul s.discount (← N.add one (N.const inputs.wacc))
  let total ← N.add s.total (← N.div (← N.sub nopat (← N.mul revenue k)) discount)
  pure ⟨revenue, total, discount⟩

/-- The model value minus the target, with `x` in the solved slot. -/
def residual (N : NumberSystem m α) (inputs : ForecastOf Decimal) (spec : SolveSpecFields) (x : α)
    (target : Decimal) : m α := do
  let c := N.const
  let s ← (List.range inputs.growth.length).foldlM (residualYear N inputs spec x)
    ⟨c inputs.revenueAnchor, c (.ofInt 0), c (.ofInt 1)⟩
  let terminalMargin :=
    if spec.solveVariable = .terminalOperatingMargin then x else c inputs.terminalMargin
  let tn ← N.mul (← N.mul (← N.mul s.revenue (← N.add (c (.ofInt 1)) (c inputs.terminalGrowth)))
    terminalMargin) (← N.sub (c (.ofInt 1)) (c inputs.terminalTax))
  let terminal ← N.div
    (← N.div
      (← N.sub tn (← N.div (← N.mul tn (c inputs.terminalGrowth)) (c inputs.terminalRoic)))
      (← N.sub (c inputs.wacc) (c inputs.terminalGrowth)))
    s.discount
  N.sub (← N.add s.total terminal) (c target)

/-- The residual is the last difference that it takes. -/
theorem residual_eq_ok {ε : Type} {N : NumberSystem (Except ε) α} {inputs : ForecastOf Decimal}
    {spec : SolveSpecFields} {x r : α} {target : Decimal} (h : residual N inputs spec x target = .ok r) :
    ∃ value, N.sub value (N.const target) = .ok r := by
  unfold residual at h
  iterate 13 obtain ⟨_, _, h⟩ := exists_of_bind_eq_ok h
  exact ⟨_, h⟩

/-- Forecasts whose slots are related. -/
structure ForecastOf.Related {α β : Type} (R : α → β → Prop) (f : ForecastOf α) (g : ForecastOf β) : Prop where
  revenueAnchor : R f.revenueAnchor g.revenueAnchor
  growth : List.Forall₂ R f.growth g.growth
  margins : List.Forall₂ R f.margins g.margins
  taxes : List.Forall₂ R f.taxes g.taxes
  reinvestment : List.Forall₂ R f.reinvestment g.reinvestment
  wacc : R f.wacc g.wacc
  riskFree : R f.riskFree g.riskFree
  terminalGrowth : R f.terminalGrowth g.terminalGrowth
  terminalMargin : R f.terminalMargin g.terminalMargin
  terminalTax : R f.terminalTax g.terminalTax
  terminalRoic : R f.terminalRoic g.terminalRoic

/-- A forecast is related to itself. -/
theorem ForecastOf.Related.refl {α : Type} {R : α → α → Prop} (hR : ∀ a, R a a) (f : ForecastOf α) : f.Related R f := by
  have hlist : ∀ l : List α, List.Forall₂ R l l := fun l => List.forall₂_same.mpr fun a _ => hR a
  constructor <;> first | exact hR _ | exact hlist _

/-- Entries of related vectors are related. -/
theorem entry_related {R : Decimal → Decimal → Prop} (hzero : R (.ofInt 0) (.ofInt 0)) {v w : List Decimal}
    (h : List.Forall₂ R v w) (i : ℕ) : R (entry v i) (entry w i) := by
  induction h generalizing i with
  | nil => simpa [entry] using hzero
  | cons hab _ ih =>
    cases i with
    | zero => exact hab
    | succ i => exact ih i

section

variable {n : Type → Type} [Monad n] {β : Type} {M : MonadRelation m n} {R : α → β → Prop}

/-- Residuals of related forecasts over systems of which one simulates the other are related. -/
theorem residual_related {N : NumberSystem m α} {P : NumberSystem n β} (h : Simulates M R N P) {f g : ForecastOf Decimal}
    (hfg : f.Related (fun d e => R (N.const d) (P.const e)) g) (spec : SolveSpecFields) (target : Decimal) {x : α} {y : β}
    (hx : R x y) : M.Rel R (residual N f spec x target) (residual P g spec y target) := by
  have hconst := h.const
  have hmargin : ∀ i, M.Rel R (residualMargin N f spec x i) (residualMargin P g spec y i) := by
    intro i
    unfold residualMargin
    split
    · refine M.bind (h.sub (hconst _) (hconst _)) fun _ _ h1 => ?_
      refine M.bind (h.mul h1 (hconst _)) fun _ _ h2 => ?_
      exact M.bind (h.mul (hconst _) hx) fun _ _ h3 => h.add h2 h3
    · exact M.pure (entry_related (hconst _) hfg.margins i)
  have hyear : ∀ i s t,
      (R s.revenue t.revenue ∧ R s.total t.total ∧ R s.discount t.discount) →
      M.Rel (fun s t => R s.revenue t.revenue ∧ R s.total t.total ∧ R s.discount t.discount)
        (residualYear N f spec x s i) (residualYear P g spec y t i) := by
    rintro i s t ⟨hrevenue, htotal, hdiscount⟩
    have hg : R (if spec.solveVariable = .revenueCagr then x else N.const (entry f.growth i))
        (if spec.solveVariable = .revenueCagr then y else P.const (entry g.growth i)) := by
      split
      · exact hx
      · exact entry_related (hconst _) hfg.growth i
    have hk : R
        (if spec.solveVariable = .reinvestmentToRevenue then x else N.const (entry f.reinvestment i))
        (if spec.solveVariable = .reinvestmentToRevenue then y else P.const (entry g.reinvestment i)) := by
      split
      · exact hx
      · exact entry_related (hconst _) hfg.reinvestment i
    unfold residualYear
    refine M.bind (hmargin i) fun _ _ hmargin => ?_
    refine M.bind (h.add (hconst _) hg) fun _ _ hgrowth => ?_
    refine M.bind (h.mul hrevenue hgrowth) fun _ _ hrevenue => ?_
    refine M.bind (h.mul hrevenue hmargin) fun _ _ hebit => ?_
    refine M.bind (h.positive hebit) fun _ _ hpositive => ?_
    refine M.bind (h.mul hpositive (entry_related (hconst _) hfg.taxes i)) fun _ _ htax => ?_
    refine M.bind (h.sub hebit htax) fun _ _ hnopat => ?_
    refine M.bind (h.add (hconst _) hfg.wacc) fun _ _ hrate => ?_
    refine M.bind (h.mul hdiscount hrate) fun _ _ hdiscount => ?_
    refine M.bind (h.mul hrevenue hk) fun _ _ hreinvestment => ?_
    refine M.bind (h.sub hnopat hreinvestment) fun _ _ hfcff => ?_
    refine M.bind (h.div hfcff hdiscount) fun _ _ hpv => ?_
    refine M.bind (h.add htotal hpv) fun _ _ htotal => ?_
    exact M.pure ⟨hrevenue, htotal, hdiscount⟩
  have hterminal : R
      (if spec.solveVariable = .terminalOperatingMargin then x else N.const f.terminalMargin)
      (if spec.solveVariable = .terminalOperatingMargin then y else P.const g.terminalMargin) := by
    split
    · exact hx
    · exact hfg.terminalMargin
  unfold residual
  rw [hfg.growth.length_eq]
  refine M.bind (M.foldlM _ (fun i _ => hyear i) ⟨hfg.revenueAnchor, hconst _, hconst _⟩) fun s t hs => ?_
  refine M.bind (h.add (hconst _) hfg.terminalGrowth) fun _ _ h1 => ?_
  refine M.bind (h.mul hs.1 h1) fun _ _ h2 => ?_
  refine M.bind (h.mul h2 hterminal) fun _ _ h3 => ?_
  refine M.bind (h.sub (hconst _) hfg.terminalTax) fun _ _ h4 => ?_
  refine M.bind (h.mul h3 h4) fun _ _ htn => ?_
  refine M.bind (h.mul htn hfg.terminalGrowth) fun _ _ h5 => ?_
  refine M.bind (h.div h5 hfg.terminalRoic) fun _ _ h6 => ?_
  refine M.bind (h.sub htn h6) fun _ _ h7 => ?_
  refine M.bind (h.sub hfg.wacc hfg.terminalGrowth) fun _ _ h8 => ?_
  refine M.bind (h.div h7 h8) fun _ _ h9 => ?_
  refine M.bind (h.div h9 hs.2.2) fun _ _ h10 => ?_
  exact M.bind (h.add hs.2.1 h10) fun _ _ h11 => h.sub h11 (hconst _)

/-- The residual over one number system is related to the residual over another that simulates it. -/
theorem residual_simulates {N : NumberSystem m α} {P : NumberSystem n β} (h : Simulates M R N P)
    (inputs : ForecastOf Decimal) (spec : SolveSpecFields) (target : Decimal) {x : α} {y : β} (hx : R x y) :
    M.Rel R (residual N inputs spec x target) (residual P inputs spec y target) :=
  residual_related h (ForecastOf.Related.refl h.const inputs) spec target hx

end

end EquityEval.Valuation
