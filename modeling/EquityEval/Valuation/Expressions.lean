import EquityEval.Valuation.Dual

/-!
# Expressions over dual numbers

An expression is built from constants and the seed of a domain by the operations of dual numbers. It
denotes a function of one real unknown; what it evaluates to encloses the values and the slopes of this
function on the domain, so that a certified sign of its slopes proves that the function is strictly
monotone there, across the kinks of positive parts too.
-/

namespace EquityEval.Valuation

open DecimalArithmetic IntervalCalculus Set

/-- What is built by the operations of dual numbers from constants and the seed. -/
inductive Expression where
  | constant (value : Decimal)
  | seed
  | add (left right : Expression)
  | sub (left right : Expression)
  | mul (left right : Expression)
  | div (left right : Expression)
  | positive (operand : Expression)
deriving DecidableEq, Repr

namespace Expression

/-- The dual bounds of an expression, with the unknown ranging over a domain. -/
def dual (domain : Bounds) : Expression → Except NumericError Dual
  | constant value => pure (Dual.constant value)
  | seed => pure ⟨domain, .point (.ofInt 1)⟩
  | add left right => do (← left.dual domain).add (← right.dual domain)
  | sub left right => do (← left.dual domain).sub (← right.dual domain)
  | mul left right => do (← left.dual domain).mul (← right.dual domain)
  | div left right => do (← left.dual domain).div (← right.dual domain)
  | positive operand => do return (← operand.dual domain).positive

/-- The exact function of the unknown that an expression denotes. -/
noncomputable def denote : Expression → ℝ → ℝ
  | constant value, _ => value.value
  | seed, x => x
  | add left right, x => left.denote x + right.denote x
  | sub left right, x => left.denote x - right.denote x
  | mul left right, x => left.denote x * right.denote x
  | div left right, x => left.denote x / right.denote x
  | positive operand, x => max (operand.denote x) 0

/-- No denominator of an expression is zero. -/
def Defined : Expression → ℝ → Prop
  | constant _, _ => True
  | seed, _ => True
  | add left right, x => left.Defined x ∧ right.Defined x
  | sub left right, x => left.Defined x ∧ right.Defined x
  | mul left right, x => left.Defined x ∧ right.Defined x
  | div left right, x => left.Defined x ∧ right.Defined x ∧ right.denote x ≠ 0
  | positive operand, x => operand.Defined x

variable {domain : Bounds} {e : Expression} {d : Dual}

/-- A divisor whose bounds were divided by has no zero among its values. -/
theorem ne_zero_of_div {a b r : Dual} {s : Set ℝ} {g : ℝ → ℝ} (h : a.div b = .ok r) (hb : b.Encloses s g) :
    ∀ x ∈ s, g x ≠ 0 := by
  intro x hx
  obtain ⟨value, hvalue, -⟩ := exists_of_bind_eq_ok h
  have hmem := hb.value hx
  rcases Bounds.div_side hvalue with hpos | hneg
  · exact (hpos.trans_le hmem.1).ne'
  · exact (hmem.2.trans_lt hneg).ne

/-- What an expression evaluates to encloses the function that it denotes, which is defined on the whole domain. -/
theorem dual_encloses (h : e.dual domain = .ok d) : d.Encloses domain.set e.denote ∧ ∀ x ∈ domain.set, e.Defined x := by
  induction e generalizing d with
  | constant value =>
    cases h
    exact ⟨Dual.constant_encloses value, fun _ _ => trivial⟩
  | seed =>
    cases h
    exact ⟨Dual.seed_encloses domain, fun _ _ => trivial⟩
  | add left right ihl ihr =>
    obtain ⟨a, ha, h⟩ := exists_of_bind_eq_ok h
    obtain ⟨b, hb, h⟩ := exists_of_bind_eq_ok h
    obtain ⟨hleft, hdefl⟩ := ihl ha
    obtain ⟨hright, hdefr⟩ := ihr hb
    exact ⟨Dual.add_encloses h hleft hright, fun x hx => ⟨hdefl x hx, hdefr x hx⟩⟩
  | sub left right ihl ihr =>
    obtain ⟨a, ha, h⟩ := exists_of_bind_eq_ok h
    obtain ⟨b, hb, h⟩ := exists_of_bind_eq_ok h
    obtain ⟨hleft, hdefl⟩ := ihl ha
    obtain ⟨hright, hdefr⟩ := ihr hb
    exact ⟨Dual.sub_encloses h hleft hright, fun x hx => ⟨hdefl x hx, hdefr x hx⟩⟩
  | mul left right ihl ihr =>
    obtain ⟨a, ha, h⟩ := exists_of_bind_eq_ok h
    obtain ⟨b, hb, h⟩ := exists_of_bind_eq_ok h
    obtain ⟨hleft, hdefl⟩ := ihl ha
    obtain ⟨hright, hdefr⟩ := ihr hb
    exact ⟨Dual.mul_encloses h hleft hright, fun x hx => ⟨hdefl x hx, hdefr x hx⟩⟩
  | div left right ihl ihr =>
    obtain ⟨a, ha, h⟩ := exists_of_bind_eq_ok h
    obtain ⟨b, hb, h⟩ := exists_of_bind_eq_ok h
    obtain ⟨hleft, hdefl⟩ := ihl ha
    obtain ⟨hright, hdefr⟩ := ihr hb
    exact ⟨Dual.div_encloses h hleft hright, fun x hx => ⟨hdefl x hx, hdefr x hx, ne_zero_of_div h hright x hx⟩⟩
  | positive operand ih =>
    obtain ⟨a, ha, h⟩ := exists_of_bind_eq_ok h
    cases h
    obtain ⟨hoperand, hdef⟩ := ih ha
    exact ⟨Dual.positive_encloses hoperand, hdef⟩

/-- The slopes of a function lie on the certified side of zero. -/
theorem sign_slopes {b : Bounds} : (b.sign = 1 → ∀ t ∈ b.set, 0 < t) ∧ (b.sign = -1 → ∀ t ∈ b.set, t < 0) := by
  unfold Bounds.sign
  split
  case isTrue hlo =>
    rw [Decimal.lt_iff_value, Decimal.value_ofInt] at hlo
    have hpos : (0 : ℝ) < b.lo.value := by exact_mod_cast hlo
    exact ⟨fun _ t ht => hpos.trans_le ht.1, fun h => absurd h (by decide)⟩
  case isFalse =>
    split
    case isTrue hhi =>
      rw [Decimal.lt_iff_value, Decimal.value_ofInt] at hhi
      have hneg : (b.hi.value : ℝ) < 0 := by exact_mod_cast hhi
      exact ⟨fun h => absurd h (by decide), fun _ t ht => ht.2.trans_lt hneg⟩
    case isFalse => exact ⟨fun h => absurd h (by decide), fun h => absurd h (by decide)⟩

/-- The function that an expression denotes is defined on the domain, its values and its difference quotients lie in the
bounds that the expression evaluates to, and it is strictly monotone where these have a sign. -/
theorem slope_enclosure (h : e.dual domain = .ok d) :
    (∀ x ∈ domain.set, e.Defined x ∧ e.denote x ∈ d.value.set) ∧
      (∀ x ∈ domain.set, ∀ y ∈ domain.set, x < y → (e.denote y - e.denote x) / (y - x) ∈ d.derivative.set) ∧
      (d.derivative.sign = 1 → StrictMonoOn e.denote domain.set) ∧
      (d.derivative.sign = -1 → StrictAntiOn e.denote domain.set) := by
  obtain ⟨hencloses, hdefined⟩ := dual_encloses h
  refine ⟨fun x hx => ⟨hdefined x hx, hencloses.value hx⟩, fun x hx y hy hxy => ?_, fun hsign => ?_, fun hsign => ?_⟩
  · rw [← slope_def_field]
    exact hencloses.slopes x hx y hy hxy
  · exact hencloses.slopes.strictMonoOn (sign_slopes.1 hsign)
  · exact hencloses.slopes.strictAntiOn (sign_slopes.2 hsign)

/-- The unknown and the excess of it over one, over one and the unknown. -/
def sampleExpression : Expression :=
  .div (.add seed (.positive (.sub seed (.constant (.ofInt 1))))) (.add (.constant (.ofInt 1)) (.mul (.constant (.ofInt 1)) seed))

/-- The sample is strictly increasing around its kink. -/
theorem slope_enclosure_sample :
    StrictMonoOn sampleExpression.denote (Bounds.set ⟨⟨false, 9, -1⟩, ⟨false, 11, -1⟩⟩) := by
  obtain ⟨d, hd, hsign⟩ : ∃ d, sampleExpression.dual ⟨⟨false, 9, -1⟩, ⟨false, 11, -1⟩⟩ = .ok d ∧ d.derivative.sign = 1 := by
    obtain ⟨d, hd⟩ := Option.isSome_iff_exists.mp
      (show (((sampleExpression.dual ⟨⟨false, 9, -1⟩, ⟨false, 11, -1⟩⟩).toOption).filter (·.derivative.sign = 1)).isSome by
        decide +kernel)
    rw [Option.filter_eq_some_iff, toOption_eq_some] at hd
    exact ⟨d, hd.1, of_decide_eq_true hd.2⟩
  exact (slope_enclosure hd).2.2.1 hsign

end Expression

end EquityEval.Valuation
