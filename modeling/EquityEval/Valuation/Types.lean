import EquityEval.Arithmetic.NumberSystem

/-!
# Valuation contracts

The records of the valuation model with the checks their constructors make. A record that
the source validates is a structure whose last field is the passed check, so a forecast, a
solve specification or an interval that breaks its domain cannot be built. Checks keep the
order and the messages of the source.

Provenance fields of the published payload (authors, hashes, dates) take no part in the
numerical model and are left out.
-/

namespace EquityEval.Valuation

open DecimalArithmetic

/-- The versioned algorithm settings: eighty digits, ties to even. -/
def context : Context := ⟨80, .halfEven, -9999, 9999⟩

/-- What the interval arithmetic raises: a decimal signal or its own `ArithmeticError`. -/
inductive NumericError where
  | decimal (e : DecimalException)
  | denominatorCrossesZero
deriving DecidableEq, Repr

/-- What the valuation code raises. A validation error is a `ValueError`. -/
inductive Raised where
  | valueError (message : String)
  | budgetExhausted
  | numeric (e : NumericError)
deriving DecidableEq, Repr

/-- Refuse a value with a message when a condition holds. -/
def refuseIf (refused : Prop) [Decidable refused] (message : String) : Except String Unit :=
  if refused then .error message else .ok ()

/-- A sequence of checks passes when the first one and the rest pass. -/
@[simp] theorem refuseIf_bind_eq_ok {α : Type} (refused : Prop) [Decidable refused] (message : String)
    (rest : Unit → Except String α) (a : α) :
    (refuseIf refused message >>= rest) = .ok a ↔ ¬ refused ∧ rest () = .ok a := by
  unfold refuseIf
  split
  · rename_i h
    constructor
    · rintro ⟨⟩
    · exact fun hok => absurd h hok.1
  · rename_i h
    exact ⟨fun hok => ⟨h, hok⟩, fun hok => hok.2⟩

/-- A single check passes when its condition does not hold. -/
@[simp] theorem refuseIf_eq_ok (refused : Prop) [Decidable refused] (message : String) (u : Unit) :
    refuseIf refused message = .ok u ↔ ¬ refused := by
  unfold refuseIf
  split <;> simp_all

/-- The unknown that a scenario solves for. -/
inductive Variable where
  | revenueCagr
  | terminalOperatingMargin
  | reinvestmentToRevenue
deriving DecidableEq, Repr

/-- A decimal within the input bounds of `decimal_dcf_v1`. -/
def Bounded (d : Decimal) : Prop := d.digits ≤ 40 ∧ |d.adjusted| ≤ 100 ∧ |d.exponent| ≤ 100

instance : DecidablePred Bounded := fun d => by
  unfold Bounded
  infer_instance

/-- The field check of bounded inputs. -/
def boundedDecimals (ds : List Decimal) : Except String Unit :=
  refuseIf (¬ ∀ d ∈ ds, Bounded d) "decimal_dcf_v1 input bounds exceeded"

/-- The slots of a forecast over any number type. -/
structure ForecastOf (α : Type) where
  revenueAnchor : α
  growth : List α
  margins : List α
  taxes : List α
  reinvestment : List α
  wacc : α
  riskFree : α
  terminalGrowth : α
  terminalMargin : α
  terminalTax : α
  terminalRoic : α
deriving DecidableEq, Repr

namespace ForecastOf

/-- Every number of a forecast, in the order of the check. -/
def numbers {α : Type} (f : ForecastOf α) : List α :=
  [f.revenueAnchor] ++ f.growth ++ f.margins ++ f.taxes ++ f.reinvestment ++
    [f.wacc, f.riskFree, f.terminalGrowth, f.terminalMargin, f.terminalTax, f.terminalRoic]

/-- The domain check of a resolved forecast. -/
def domains (f : ForecastOf Decimal) : Except String Unit := do
  refuseIf (∃ v ∈ f.numbers, 100 < |v.adjusted| ∨ 80 < v.digits) "Internal Decimal bounds exceeded"
  refuseIf (¬ (1 ≤ f.growth.length ∧ f.growth.length ≤ 10) ∨
      ∃ v ∈ [f.margins, f.taxes, f.reinvestment], v.length ≠ f.growth.length)
    "Complete equal forecast vectors required"
  refuseIf (f.revenueAnchor ≤ .ofInt 0 ∨ f.wacc ≤ .ofInt 0 ∨ f.terminalRoic ≤ .ofInt 0)
    "Positive anchor, WACC and terminal ROIC required by model v1"
  refuseIf (¬ (.ofInt 0 ≤ f.terminalGrowth ∧
      f.terminalGrowth < Decimal.minimum (Decimal.minimum f.riskFree f.wacc) f.terminalRoic))
    "Model v1 terminal growth domain"
  refuseIf (¬ (.ofInt 0 < f.terminalMargin ∧ f.terminalMargin ≤ .ofInt 1) ∨
      ¬ (.ofInt 0 ≤ f.terminalTax ∧ f.terminalTax < .ofInt 1))
    "Model v1 terminal margin/tax domain"
  refuseIf ((∃ g ∈ f.growth, g ≤ .ofInt (-1)) ∨ ∃ k ∈ f.reinvestment, k < .ofInt 0)
    "Model v1 growth/reinvestment domain"
  refuseIf (∃ t ∈ f.taxes, ¬ (.ofInt 0 ≤ t ∧ t ≤ .ofInt 1)) "Tax rates must be fractions"

/-- An accepted forecast has vectors of one length between one and ten years. -/
theorem lengths_of_domains {f : ForecastOf Decimal} (h : f.domains = .ok ()) :
    1 ≤ f.growth.length ∧ f.growth.length ≤ 10 ∧ f.margins.length = f.growth.length ∧
      f.taxes.length = f.growth.length ∧ f.reinvestment.length = f.growth.length := by
  simp only [domains, refuseIf_bind_eq_ok] at h
  obtain ⟨_, hlen, _⟩ := h
  simp only [List.mem_cons, List.not_mem_nil, or_false, exists_eq_or_imp, exists_eq_left, not_or, not_not,
    ne_eq] at hlen
  exact ⟨hlen.1.1, hlen.1.2, hlen.2⟩

/-- What an accepted forecast promises of its numbers. -/
structure Domain (f : ForecastOf Decimal) : Prop where
  bounded : ∀ v ∈ f.numbers, |v.adjusted| ≤ 100 ∧ v.digits ≤ 80
  anchor_pos : 0 < f.revenueAnchor.value
  wacc_pos : 0 < f.wacc.value
  roic_pos : 0 < f.terminalRoic.value
  terminalGrowth_nonneg : 0 ≤ f.terminalGrowth.value
  terminalGrowth_lt_wacc : f.terminalGrowth.value < f.wacc.value
  terminalGrowth_lt_roic : f.terminalGrowth.value < f.terminalRoic.value
  terminalMargin_pos : 0 < f.terminalMargin.value
  terminalMargin_le : f.terminalMargin.value ≤ 1
  terminalTax_nonneg : 0 ≤ f.terminalTax.value
  terminalTax_lt : f.terminalTax.value < 1
  growth : ∀ g ∈ f.growth, -1 < g.value
  reinvestment : ∀ k ∈ f.reinvestment, 0 ≤ k.value
  taxes : ∀ t ∈ f.taxes, 0 ≤ t.value ∧ t.value ≤ 1

/-- The check of a forecast establishes its domain. -/
theorem domain_of_domains {f : ForecastOf Decimal} (h : f.domains = .ok ()) : f.Domain := by
  simp only [domains, refuseIf_bind_eq_ok, refuseIf_eq_ok, not_or, not_not,
    Decimal.le_iff_value, Decimal.lt_iff_value, Decimal.value_minimum, Decimal.value_ofInt, lt_min_iff] at h
  obtain ⟨hbounded, -, ⟨hanchor, hwacc, hroic⟩, ⟨hgrowth, ⟨-, hlow⟩, hlowRoic⟩, ⟨hmargin, htax⟩, hvectors, htaxes⟩ := h
  push_cast at *
  exact
    { bounded := fun v hv =>
        ⟨not_lt.mp fun hlt => hbounded ⟨v, hv, Or.inl hlt⟩, not_lt.mp fun hlt => hbounded ⟨v, hv, Or.inr hlt⟩⟩
      anchor_pos := not_le.mp hanchor
      wacc_pos := not_le.mp hwacc
      roic_pos := not_le.mp hroic
      terminalGrowth_nonneg := hgrowth
      terminalGrowth_lt_wacc := hlow
      terminalGrowth_lt_roic := hlowRoic
      terminalMargin_pos := hmargin.1
      terminalMargin_le := hmargin.2
      terminalTax_nonneg := htax.1
      terminalTax_lt := htax.2
      growth := fun g hg => not_le.mp fun hle => hvectors.1 ⟨g, hg, hle⟩
      reinvestment := fun k hk => not_lt.mp fun hlt => hvectors.2 ⟨k, hk, hlt⟩
      taxes := fun t ht => not_not.mp fun hout => htaxes ⟨t, ht, hout⟩ }

end ForecastOf

/-- A forecast that passed its domain check. -/
structure Forecast extends ForecastOf Decimal where
  accepted : toForecastOf.domains = .ok ()
deriving DecidableEq, Repr

/-- The slots of a solve specification. -/
structure SolveSpecFields where
  solveVariable : Variable
  lower : Decimal
  upper : Decimal
  absoluteTolerance : Decimal
  relativeTolerance : Decimal
  widthTolerance : Decimal
  maxIterations : ℕ
  maxSubdivisions : ℕ
  maxEvaluations : ℕ
  marginWeights : List Decimal
  anchorMargin : Option Decimal
deriving DecidableEq, Repr

namespace SolveSpecFields

/-- Every bounded decimal of a specification. -/
def inputs (s : SolveSpecFields) : List Decimal :=
  [s.lower, s.upper, s.absoluteTolerance, s.relativeTolerance, s.widthTolerance] ++ s.marginWeights ++
    s.anchorMargin.toList

/-- The field checks and the domain check of a specification. -/
def domain (s : SolveSpecFields) : Except String Unit := do
  boundedDecimals s.inputs
  refuseIf (¬ (1 ≤ s.maxIterations ∧ s.maxIterations ≤ 256)) "max_iterations"
  refuseIf (¬ (1 ≤ s.maxSubdivisions ∧ s.maxSubdivisions ≤ 4096)) "max_subdivisions"
  refuseIf (¬ (1 ≤ s.maxEvaluations ∧ s.maxEvaluations ≤ 10000)) "max_evaluations"
  refuseIf (s.upper ≤ s.lower ∨ s.absoluteTolerance ≤ .ofInt 0 ∨ s.relativeTolerance < .ofInt 0 ∨
      s.widthTolerance ≤ .ofInt 0)
    "Ordered bounds and explicit positive absolute/width tolerances"
  if s.solveVariable = .terminalOperatingMargin then
    refuseIf (¬ (.ofInt 0 < s.lower ∧ s.lower < s.upper ∧ s.upper ≤ .ofInt 1) ∨ s.anchorMargin = none ∨
        s.marginWeights = [] ∨ (∃ w ∈ s.marginWeights.getLast?, ¬ w.NumEq (.ofInt 1)) ∨
        (∃ w ∈ s.marginWeights, ¬ (.ofInt 0 ≤ w ∧ w ≤ .ofInt 1)) ∨
        ¬ s.marginWeights.Pairwise (· ≤ ·))
      "Explicit monotone margin fade and positive margin domain required"
  else
    refuseIf (s.marginWeights ≠ [] ∨ s.anchorMargin ≠ none) "Margin fade only belongs to the margin solve"
  refuseIf (s.solveVariable = .revenueCagr ∧ s.lower ≤ .ofInt (-1)) "Growth domain must exceed -1"
  refuseIf (s.solveVariable = .reinvestmentToRevenue ∧ s.lower < .ofInt 0) "Reinvestment domain cannot be negative"

end SolveSpecFields

/-- What an accepted specification promises of its numbers. -/
structure SolveSpecFields.Domain (s : SolveSpecFields) : Prop where
  bounded : ∀ d ∈ s.inputs, Bounded d
  lower_lt_upper : s.lower < s.upper
  absoluteTolerance_pos : .ofInt 0 < s.absoluteTolerance
  relativeTolerance_nonneg : .ofInt 0 ≤ s.relativeTolerance
  widthTolerance_pos : .ofInt 0 < s.widthTolerance

/-- A specification that passed its checks. -/
structure SolveSpec extends SolveSpecFields where
  accepted : toSolveSpecFields.domain = .ok ()
deriving DecidableEq, Repr

/-- Failing to be below or equal is being above. -/
theorem lt_of_not_decimal_le {a b : Decimal} (h : ¬ b ≤ a) : a < b :=
  Decimal.lt_iff_value.mpr (not_le.mp fun hle => h (Decimal.le_iff_value.mpr hle))

/-- Failing to be below is being above or equal. -/
theorem le_of_not_decimal_lt {a b : Decimal} (h : ¬ b < a) : a ≤ b :=
  Decimal.le_iff_value.mpr (not_lt.mp fun hlt => h (Decimal.lt_iff_value.mpr hlt))

/-- The check of a specification establishes its domain. -/
theorem SolveSpec.domain_of_accepted (s : SolveSpec) : s.toSolveSpecFields.Domain := by
  have h := s.accepted
  simp only [SolveSpecFields.domain, boundedDecimals, refuseIf_bind_eq_ok, not_not] at h
  obtain ⟨hbounded, _, _, _, hranges, _⟩ := h
  simp only [not_or] at hranges
  exact
    { bounded := hbounded
      lower_lt_upper := lt_of_not_decimal_le hranges.1
      absoluteTolerance_pos := lt_of_not_decimal_le hranges.2.1
      relativeTolerance_nonneg := le_of_not_decimal_lt hranges.2.2.1
      widthTolerance_pos := lt_of_not_decimal_le hranges.2.2.2 }

/-- An ordered pair of decimals. -/
structure Interval where
  lower : Decimal
  upper : Decimal
  ordered : lower ≤ upper
deriving DecidableEq, Repr

/-- What a proof region says about its domain. -/
inductive Disposition where
  | excluded
  | uniqueRoot
  | unresolved
deriving DecidableEq, Repr

/-- A visited region with the evidence for its disposition. -/
structure ProofRegion where
  domain : Interval
  residual : Interval
  derivative : Interval
  disposition : Disposition
  leftResidual : Option Interval
  rightResidual : Option Interval
  root : Option Interval
deriving DecidableEq, Repr

/-- The outcome of a solve. -/
inductive SolveState where
  | converged
  | noSolutionInDomain
  | nonUnique
  | inconclusive
  | unavailable
deriving DecidableEq, Repr

/-- The slots of a solve result; its proof revision is the constant `decimal_interval_model_v1`. -/
structure SolveResultFields where
  state : SolveState
  representative : Option Decimal
  interval : Option Interval
  residual : Option Interval
  rootIntervals : List Interval
  unresolvedDomains : List Interval
  proof : List ProofRegion
  evaluations : ℕ
  subdivisions : ℕ
  iterations : ℕ
  reasons : List String
deriving DecidableEq, Repr

/-- A scalar result needs its interval, its residual and its proof. -/
def SolveResultFields.scalarRequiresCertificate (r : SolveResultFields) : Except String Unit :=
  if r.state = .converged then
    match r.representative, r.interval, r.residual with
    | some x, some i, some _ =>
      refuseIf (¬ (i.lower ≤ x ∧ x ≤ i.upper) ∨ r.rootIntervals.length ≠ 1 ∨ r.proof = [])
        "Converged scalar requires retained interval and proof"
    | _, _, _ => .error "Converged scalar requires retained interval and proof"
  else
    refuseIf (r.representative ≠ none ∨ r.interval ≠ none)
      "Only certified unique convergence has a headline scalar"

/-- A solve result that passed its check. -/
structure SolveResult extends SolveResultFields where
  accepted : toSolveResultFields.scalarRequiresCertificate = .ok ()
deriving DecidableEq, Repr

/-- Validate the slots of a solve result. -/
def SolveResult.validate (fields : SolveResultFields) : Except Raised SolveResult :=
  match h : fields.scalarRequiresCertificate with
  | .ok () => .ok ⟨fields, h⟩
  | .error message => .error (.valueError message)

/-- A validated result holds the given slots. -/
theorem SolveResult.fields_of_validate {fields : SolveResultFields} {r : SolveResult}
    (h : SolveResult.validate fields = .ok r) : r.toSolveResultFields = fields := by
  unfold validate at h
  split at h
  · cases h
    rfl
  · cases h

/-- Slots that pass the check form a validated result. -/
theorem SolveResult.validate_isOk {fields : SolveResultFields} (h : fields.scalarRequiresCertificate = .ok ()) :
    ∃ r, validate fields = .ok r := by
  unfold validate
  split
  · exact ⟨_, rfl⟩
  · rename_i message heq
    rw [h] at heq
    cases heq

end EquityEval.Valuation
